/-
  JobFleet.Proofs.Lock.Lease: what the operations of the store in memory do to the lease of a key.

  Everything is said about the live lease of a key.  An operation on a key only ever takes away a
  lease that is over, or one that it may take: setting a key keeps every live lease, and deleting
  keeps every live lease of another key or another holder.

  Main results:
    * `live?_setIfAbsent` — an answer of yes means that the key was free, and the key then has the
      new lease.
    * `lookup_setIfAbsent` — whatever the answer, a live lease stays.
    * `lookup_compareAndDelete` — a live lease of another key or holder stays.
    * `holder?_compareAndDelete` — after an answer the key does not have the given holder.
    * `live?_of_setIfAbsent`, `live?_of_compareAndDelete` — where a lease that is live after an
      operation comes from.
    * `live?_compareAndExtend` — an answer of yes means that a live lease of the holder ends later.
    * `Agree.setIfAbsent`, `Agree.compareAndDelete` — what an operation answers, and what it makes
      of its key, depends on the lease of the key only.
-/
import JobFleet.Lock.Faulty

namespace JobFleet

namespace MemoryStore

/-! ## Lookup after an elementary change -/

/-- A key that was taken out of a list is not found there. -/
theorem lookup_filter_self (key : String) (l : List (String × Lease)) :
    (l.filter (fun entry => entry.1 != key)).lookup key = none := by
  induction l with
  | nil => rfl
  | cons entry rest ih =>
    obtain ⟨k, lease⟩ := entry
    by_cases h : k = key
    · subst h
      simpa using ih
    · have hne : (key == k) = false := beq_eq_false_iff_ne.2 (Ne.symm h)
      simp [h, List.lookup_cons, hne, ih]

theorem lookup_filter_ne {key other : String} (h : other ≠ key) (l : List (String × Lease)) :
    (l.filter (fun entry => entry.1 != key)).lookup other = l.lookup other := by
  induction l with
  | nil => rfl
  | cons entry rest ih =>
    obtain ⟨k, lease⟩ := entry
    by_cases hk : k = key
    · subst hk
      have hne : (other == k) = false := beq_eq_false_iff_ne.2 h
      simp [List.lookup_cons, hne, ih]
    · by_cases ho : other = k
      · subst ho
        simp [hk]
      · have hne : (other == k) = false := beq_eq_false_iff_ne.2 ho
        simp [hk, List.lookup_cons, hne, ih]

@[simp] theorem lookup_erase_self (key : String) (s : MemoryStore) :
    (s.erase key).lookup key = none :=
  lookup_filter_self key s.leases

theorem lookup_erase_ne {key other : String} (h : other ≠ key) (s : MemoryStore) :
    (s.erase key).lookup other = s.lookup other :=
  lookup_filter_ne h s.leases

@[simp] theorem lookup_insert_self (key : String) (lease : Lease) (s : MemoryStore) :
    (s.insert key lease).lookup key = some lease := by
  simp [insert, lookup]

theorem lookup_insert_ne {key other : String} (h : other ≠ key) (lease : Lease) (s : MemoryStore) :
    (s.insert key lease).lookup other = s.lookup other := by
  have hne : (other == key) = false := beq_eq_false_iff_ne.2 h
  have hers : (s.erase key).leases.lookup other = s.leases.lookup other :=
    lookup_filter_ne h s.leases
  simp only [insert, lookup, List.lookup_cons, hne]
  exact hers

/-! ## Live leases -/

/-- A lease is live until its time has passed. -/
theorem live?_eq_some {now : Nat} {key : String} {lease : Lease} {s : MemoryStore} :
    s.live? now key = some lease ↔ s.lookup key = some lease ∧ now < lease.expiresAt := by
  unfold live?
  rw [Option.filter_eq_some_iff]
  simp

/-- Dropping a lease that is over leaves the key with its live lease, if there is one. -/
theorem lookup_purge_self (now : Nat) (key : String) (s : MemoryStore) :
    (s.purge now key).lookup key = s.live? now key := by
  unfold purge live?
  cases h : s.lookup key with
  | none => simp [h]
  | some lease =>
    by_cases hle : lease.expiresAt ≤ now
    · have hlt : ¬ now < lease.expiresAt := by omega
      simp [hle, hlt, Option.filter]
    · have hlt : now < lease.expiresAt := by omega
      simp [hle, hlt, h, Option.filter]

theorem lookup_purge_ne {now : Nat} {key other : String} (h : other ≠ key) (s : MemoryStore) :
    (s.purge now key).lookup other = s.lookup other := by
  unfold purge
  cases s.lookup key with
  | none => rfl
  | some lease =>
    by_cases hle : lease.expiresAt ≤ now
    · simp only [hle, if_true]
      exact lookup_erase_ne h s
    · simp only [hle, if_false]

/-- Purging leaves live leases alone. -/
theorem lookup_purge {now : Nat} {key other : String} {lease : Lease} {s : MemoryStore}
    (h : s.live? now other = some lease) : (s.purge now key).lookup other = some lease := by
  by_cases hk : other = key
  · subst hk
    rw [lookup_purge_self, h]
  · rw [lookup_purge_ne hk]
    exact (live?_eq_some.1 h).1

/-- Dropping a lease that is over changes no live lease. -/
theorem live?_purge (now : Nat) (key other : String) (s : MemoryStore) :
    (s.purge now key).live? now other = s.live? now other := by
  unfold live?
  by_cases h : other = key
  · subst h
    rw [lookup_purge_self]
    unfold live?
    rw [Option.filter_filter]
    simp
  · rw [lookup_purge_ne h]

/-! ## Operations -/

/-- A key without a live lease gets one. -/
theorem setIfAbsent_of_free {now : Nat} {key : String} (holder : Holder) (seconds : Nat)
    {s : MemoryStore} (h : s.live? now key = none) :
    s.setIfAbsent now key holder seconds =
      (true, (s.purge now key).insert key ⟨holder, now + 1000 * seconds⟩) := by
  simp only [setIfAbsent, lookup_purge_self, h]

/-- A key with a live lease is left alone. -/
theorem setIfAbsent_of_live {now : Nat} {key : String} (holder : Holder)
    (seconds : Nat) {lease : Lease} {s : MemoryStore} (h : s.live? now key = some lease) :
    s.setIfAbsent now key holder seconds = (false, s.purge now key) := by
  simp only [setIfAbsent, lookup_purge_self, h]

/-- Setting a key leaves every live lease alone. -/
theorem lookup_setIfAbsent {now : Nat} {key other : String} (holder : Holder)
    (seconds : Nat) {lease : Lease} {s : MemoryStore} (h : s.live? now other = some lease) :
    (s.setIfAbsent now key holder seconds).2.lookup other = some lease := by
  cases hk : s.live? now key with
  | some taken =>
    rw [setIfAbsent_of_live holder seconds hk]
    exact lookup_purge h
  | none =>
    rw [setIfAbsent_of_free holder seconds hk]
    -- the key was free, so the live lease is of another key
    have hne : other ≠ key := by
      intro heq
      rw [heq, hk] at h
      cases h
    show ((s.purge now key).insert key _).lookup other = some lease
    rw [lookup_insert_ne hne]
    exact lookup_purge h

/-- Deleting looks at the live lease only. -/
theorem compareAndDelete_eq (now : Nat) (key : String) (holder : Holder) (s : MemoryStore) :
    s.compareAndDelete now key holder =
      if (s.live? now key).map Lease.holder = some holder then (true, (s.purge now key).erase key)
      else (false, s.purge now key) := by
  simp only [compareAndDelete, lookup_purge_self]
  cases s.live? now key with
  | none => simp
  | some lease => simp

/-- Deleting a key leaves every live lease alone but that of the key and its holder. -/
theorem lookup_compareAndDelete {now : Nat} {key other : String} {holder : Holder} {lease : Lease}
    {s : MemoryStore} (h : s.live? now other = some lease)
    (hk : other ≠ key ∨ lease.holder ≠ holder) :
    (s.compareAndDelete now key holder).2.lookup other = some lease := by
  rw [compareAndDelete_eq]
  by_cases hm : (s.live? now key).map Lease.holder = some holder
  -- what is deleted is a lease of the holder under the key, and the live lease is neither
  · have hne : other ≠ key := by
      intro heq
      rw [← heq, h] at hm
      rcases hk with hk | hk
      · exact hk heq
      · exact hk (by simpa using hm)
    rw [if_pos hm]
    show ((s.purge now key).erase key).lookup other = some lease
    rw [lookup_erase_ne hne]
    exact lookup_purge h
  · rw [if_neg hm]
    exact lookup_purge h

/-- After a holder has deleted a key it does not hold it. -/
theorem holder?_compareAndDelete (now : Nat) (key : String) (holder : Holder) (s : MemoryStore) :
    (s.compareAndDelete now key holder).2.holder? now key ≠ some holder := by
  rw [compareAndDelete_eq]
  by_cases hm : (s.live? now key).map Lease.holder = some holder
  · rw [if_pos hm]
    simp [holder?, live?]
  · rw [if_neg hm]
    -- nothing was deleted because the holder was another one, and it still is
    show ((s.purge now key).live? now key).map Lease.holder ≠ some holder
    rw [live?_purge]
    exact hm

/-! ## Leases after an operation -/

/-- Setting a key leaves the other keys alone. -/
theorem lookup_setIfAbsent_ne {now : Nat} {key other : String} (h : other ≠ key)
    (holder : Holder) (seconds : Nat) (s : MemoryStore) :
    (s.setIfAbsent now key holder seconds).2.lookup other = s.lookup other := by
  cases hk : s.live? now key with
  | some taken =>
    rw [setIfAbsent_of_live holder seconds hk]
    exact lookup_purge_ne h s
  | none =>
    rw [setIfAbsent_of_free holder seconds hk]
    exact (lookup_insert_ne h _ _).trans (lookup_purge_ne h s)

/-- Deleting leaves the other keys alone. -/
theorem lookup_compareAndDelete_ne {now : Nat} {key other : String} (h : other ≠ key)
    (holder : Holder) (s : MemoryStore) :
    (s.compareAndDelete now key holder).2.lookup other = s.lookup other := by
  rw [compareAndDelete_eq]
  split
  · exact (lookup_erase_ne h _).trans (lookup_purge_ne h s)
  · exact lookup_purge_ne h s

/-- A lease that is live after a key was set was live before, or is the new one. -/
theorem live?_of_setIfAbsent {now : Nat} {key other : String} {holder : Holder}
    {seconds : Nat} {lease : Lease} {s : MemoryStore}
    (h : (s.setIfAbsent now key holder seconds).2.live? now other = some lease) :
    s.live? now other = some lease ∨
      ((s.setIfAbsent now key holder seconds).1 = true ∧ other = key ∧
        lease = ⟨holder, now + 1000 * seconds⟩) := by
  cases hk : s.live? now key with
  | some taken =>
    rw [setIfAbsent_of_live holder seconds hk, live?_purge] at h
    exact .inl h
  | none =>
    obtain ⟨hlookup, hlive⟩ := live?_eq_some.1 h
    by_cases hother : other = key
    · subst hother
      rw [setIfAbsent_of_free holder seconds hk] at hlookup ⊢
      rw [lookup_insert_self] at hlookup
      exact .inr ⟨rfl, rfl, (Option.some.inj hlookup).symm⟩
    · rw [lookup_setIfAbsent_ne hother] at hlookup
      exact .inl (live?_eq_some.2 ⟨hlookup, hlive⟩)

/-- A lease that is live after something was deleted was live before. -/
theorem live?_of_compareAndDelete {now : Nat} {key other : String} {holder : Holder} {lease : Lease}
    {s : MemoryStore} (h : (s.compareAndDelete now key holder).2.live? now other = some lease) :
    s.live? now other = some lease := by
  by_cases hother : other = key
  · subst hother
    rw [compareAndDelete_eq] at h
    split at h
    · have hlookup := (live?_eq_some.1 h).1
      rw [lookup_erase_self] at hlookup
      cases hlookup
    · rw [live?_purge] at h
      exact h
  · obtain ⟨hlookup, hlive⟩ := live?_eq_some.1 h
    rw [lookup_compareAndDelete_ne hother] at hlookup
    exact live?_eq_some.2 ⟨hlookup, hlive⟩

/-- Lengthening looks at the live lease only. -/
theorem compareAndExtend_eq (now : Nat) (key : String) (holder : Holder) (seconds : Nat)
    (s : MemoryStore) :
    s.compareAndExtend now key holder seconds =
      match (s.live? now key).filter (fun lease => lease.holder = holder) with
      | some lease =>
      (true, (s.purge now key).insert key ⟨holder, lease.expiresAt + 1000 * seconds⟩)
      | none => (false, s.purge now key) := by
  simp only [compareAndExtend, lookup_purge_self]
  cases s.live? now key with
  | none => rfl
  | some lease => by_cases h : lease.holder = holder <;> simp [h, Option.filter]

/-- Setting a key goes by the lease of the key only. -/
theorem setIfAbsent_congr {key : String} {s s' : MemoryStore} (h : s'.lookup key = s.lookup key)
    (now : Nat) (holder : Holder) (seconds : Nat) :
    (s'.setIfAbsent now key holder seconds).1 = (s.setIfAbsent now key holder seconds).1 ∧
      (s'.setIfAbsent now key holder seconds).2.lookup key =
        (s.setIfAbsent now key holder seconds).2.lookup key := by
  have hlive : s'.live? now key = s.live? now key := by
    unfold live?
    rw [h]
  cases hk : s.live? now key with
  | some taken =>
    rw [setIfAbsent_of_live holder seconds hk, setIfAbsent_of_live holder seconds (hlive.trans hk)]
    refine ⟨rfl, ?_⟩
    show (s'.purge now key).lookup key = (s.purge now key).lookup key
    rw [lookup_purge_self, lookup_purge_self, hlive]
  | none =>
    rw [setIfAbsent_of_free holder seconds hk, setIfAbsent_of_free holder seconds (hlive.trans hk)]
    refine ⟨rfl, ?_⟩
    show ((s'.purge now key).insert key _).lookup key = ((s.purge now key).insert key _).lookup key
    rw [lookup_insert_self, lookup_insert_self]

/-- Deleting a key goes by the lease of the key only. -/
theorem compareAndDelete_congr {key : String} {s s' : MemoryStore}
    (h : s'.lookup key = s.lookup key) (now : Nat) (holder : Holder) :
    (s'.compareAndDelete now key holder).1 = (s.compareAndDelete now key holder).1 ∧
      (s'.compareAndDelete now key holder).2.lookup key =
        (s.compareAndDelete now key holder).2.lookup key := by
  have hlive : s'.live? now key = s.live? now key := by
    unfold live?
    rw [h]
  rw [compareAndDelete_eq, compareAndDelete_eq, hlive]
  split
  · refine ⟨rfl, ?_⟩
    show ((s'.purge now key).erase key).lookup key = ((s.purge now key).erase key).lookup key
    rw [lookup_erase_self, lookup_erase_self]
  · refine ⟨rfl, ?_⟩
    show (s'.purge now key).lookup key = (s.purge now key).lookup key
    rw [lookup_purge_self, lookup_purge_self, hlive]

end MemoryStore

/-! ## The store whose operations may fail -/

namespace FaultyStore

/-- An answer of yes to setting a key: the key was free, and now it has the lease. -/
theorem live?_setIfAbsent {now : Nat} {key : String} {holder : Holder} {seconds : Nat}
    {s : FaultyStore} (h : (LockStore.setIfAbsent now key holder seconds s).1 = .ok true) :
    s.memory.live? now key = none ∧
      (LockStore.setIfAbsent now key holder seconds s).2.memory.lookup key =
        some ⟨holder, now + 1000 * seconds⟩ := by
  simp only [LockStore.setIfAbsent, change] at h ⊢
  by_cases hf : StoreOperation.setIfAbsent ∈ s.failing
  · simp [hf] at h
  · simp only [hf, if_false] at h ⊢
    cases hk : s.memory.live? now key with
    | some lease =>
      rw [MemoryStore.setIfAbsent_of_live holder seconds hk] at h
      simp at h
    | none =>
      rw [MemoryStore.setIfAbsent_of_free holder seconds hk]
      exact ⟨rfl, MemoryStore.lookup_insert_self _ _ _⟩

/-- Setting a key leaves every live lease alone, also where calls fail. -/
theorem lookup_setIfAbsent {now : Nat} {key other : String} (holder : Holder)
    (seconds : Nat) {lease : Lease} {s : FaultyStore} (h : s.memory.live? now other = some lease) :
    (LockStore.setIfAbsent now key holder seconds s).2.memory.lookup other = some lease := by
  simp only [LockStore.setIfAbsent, change]
  by_cases hf : StoreOperation.setIfAbsent ∈ s.failing
  · simp only [hf, if_true]
    exact (MemoryStore.live?_eq_some.1 h).1
  · simp only [hf, if_false]
    exact MemoryStore.lookup_setIfAbsent holder seconds h

/-- Deleting a key leaves every live lease of others alone, also where calls fail. -/
theorem lookup_compareAndDelete {now : Nat} {key other : String} {holder : Holder} {lease : Lease}
    {s : FaultyStore} (h : s.memory.live? now other = some lease)
    (hk : other ≠ key ∨ lease.holder ≠ holder) :
    (LockStore.compareAndDelete now key holder s).2.memory.lookup other = some lease := by
  simp only [LockStore.compareAndDelete, change]
  by_cases hf : StoreOperation.compareAndDelete ∈ s.failing
  · simp only [hf, if_true]
    exact (MemoryStore.live?_eq_some.1 h).1
  · simp only [hf, if_false]
    exact MemoryStore.lookup_compareAndDelete h hk

/-- An answer to deleting a key: the key does not have the holder any more. -/
theorem holder?_compareAndDelete {now : Nat} {key : String} {holder : Holder}
    {s : FaultyStore} {answer : Bool}
    (h : (LockStore.compareAndDelete now key holder s).1 = .ok answer) :
    (LockStore.compareAndDelete now key holder s).2.memory.holder? now key ≠ some holder := by
  simp only [LockStore.compareAndDelete, change] at h ⊢
  by_cases hf : StoreOperation.compareAndDelete ∈ s.failing
  · simp [hf] at h
  · simp only [hf, if_false]
    exact MemoryStore.holder?_compareAndDelete now key holder s.memory

/-- A lease that is live after a key was set was live before, or is the new one. -/
theorem live?_of_setIfAbsent {now : Nat} {key other : String} {holder : Holder}
    {seconds : Nat} {lease : Lease} {s : FaultyStore}
    (h : (LockStore.setIfAbsent now key holder seconds s).2.memory.live? now other = some lease) :
    s.memory.live? now other = some lease ∨
      ((LockStore.setIfAbsent now key holder seconds s).1 = .ok true ∧ other = key ∧
        lease = ⟨holder, now + 1000 * seconds⟩) := by
  simp only [LockStore.setIfAbsent, change] at h ⊢
  by_cases hf : StoreOperation.setIfAbsent ∈ s.failing
  · simp only [hf, if_true] at h
    exact .inl h
  · simp only [hf, if_false] at h ⊢
    refine (MemoryStore.live?_of_setIfAbsent h).imp_right ?_
    intro hnew
    exact ⟨congrArg Except.ok hnew.1, hnew.2⟩

/-- A lease that is live after something was deleted was live before. -/
theorem live?_of_compareAndDelete {now : Nat} {key other : String} {holder : Holder} {lease : Lease}
    {s : FaultyStore} (h :
      (LockStore.compareAndDelete now key holder s).2.memory.live? now other = some lease) :
    s.memory.live? now other = some lease := by
  simp only [LockStore.compareAndDelete, change] at h
  by_cases hf : StoreOperation.compareAndDelete ∈ s.failing
  · simp only [hf, if_true] at h
    exact h
  · simp only [hf, if_false] at h
    exact MemoryStore.live?_of_compareAndDelete h

/-- A store that works and does not give a key away knows a live lease of it. -/
theorem live?_of_refused {now : Nat} {key : String} {holder : Holder} {seconds : Nat}
    {s : FaultyStore} (hworks : s.failing = [])
    (h : (LockStore.setIfAbsent now key holder seconds s).1 ≠ .ok true) :
    ∃ lease, s.memory.live? now key = some lease := by
  cases hk : s.memory.live? now key with
  | some lease => exact ⟨lease, rfl⟩
  | none =>
    refine absurd ?_ h
    simp only [LockStore.setIfAbsent, change, hworks, List.not_mem_nil, if_false,
      MemoryStore.setIfAbsent_of_free holder seconds hk]

/-- An answer of yes to lengthening: the holder had a live lease, and it ends later by the
    seconds. -/
theorem live?_compareAndExtend {now : Nat} {key : String} {holder : Holder} {seconds : Nat}
    {s : FaultyStore} (h : (LockStore.compareAndExtend now key holder seconds s).1 = .ok true) :
    ∃ lease, s.memory.live? now key = some lease ∧ lease.holder = holder ∧
      (LockStore.compareAndExtend now key holder seconds s).2.memory.live? now key =
        some ⟨holder, lease.expiresAt + 1000 * seconds⟩ := by
  simp only [LockStore.compareAndExtend, change] at h ⊢
  by_cases hf : StoreOperation.compareAndExtend ∈ s.failing
  · simp [hf] at h
  · simp only [hf, if_false] at h ⊢
    rw [MemoryStore.compareAndExtend_eq] at h ⊢
    cases hlive : (s.memory.live? now key).filter (fun lease => lease.holder = holder) with
    | none => simp [hlive] at h
    | some lease =>
      obtain ⟨hsome, hholder⟩ := Option.filter_eq_some_iff.1 hlive
      refine ⟨lease, hsome, of_decide_eq_true hholder, ?_⟩
      have hbefore := (MemoryStore.live?_eq_some.1 hsome).2
      refine MemoryStore.live?_eq_some.2 ⟨MemoryStore.lookup_insert_self _ _ _, ?_⟩
      show now < lease.expiresAt + 1000 * seconds
      omega

/-! ## Two stores with the same lease of a key -/

/-- A key has the same lease in two stores, and the same operations fail on both. -/
structure Agree (key : String) (s s' : FaultyStore) : Prop where
  failing : s'.failing = s.failing
  lookup : s'.memory.lookup key = s.memory.lookup key

namespace Agree

variable {key other : String} {s s' : FaultyStore}

/-- Setting the key has the same answer in both, and the key then has the same lease. -/
theorem setIfAbsent (h : Agree key s s') (now : Nat) (holder : Holder) (seconds : Nat) :
    (LockStore.setIfAbsent now key holder seconds s').1 =
      (LockStore.setIfAbsent now key holder seconds s).1 ∧
      Agree key (LockStore.setIfAbsent now key holder seconds s).2
        (LockStore.setIfAbsent now key holder seconds s').2 := by
  obtain ⟨hanswer, hlookup⟩ := MemoryStore.setIfAbsent_congr h.lookup now holder seconds
  simp only [LockStore.setIfAbsent, change, h.failing]
  split
  · exact ⟨rfl, h⟩
  · exact ⟨congrArg Except.ok hanswer, rfl, hlookup⟩

/-- Deleting the key has the same answer in both, and the key then has the same lease. -/
theorem compareAndDelete (h : Agree key s s') (now : Nat) (holder : Holder) :
    (LockStore.compareAndDelete now key holder s').1 =
      (LockStore.compareAndDelete now key holder s).1 ∧
      Agree key (LockStore.compareAndDelete now key holder s).2
        (LockStore.compareAndDelete now key holder s').2 := by
  obtain ⟨hanswer, hlookup⟩ := MemoryStore.compareAndDelete_congr h.lookup now holder
  simp only [LockStore.compareAndDelete, change, h.failing]
  split
  · exact ⟨rfl, h⟩
  · exact ⟨congrArg Except.ok hanswer, rfl, hlookup⟩

/-- Setting another key changes nothing about the key. -/
theorem of_setIfAbsent (hne : key ≠ other) (now : Nat) (holder : Holder) (seconds : Nat)
    (s : FaultyStore) :
    Agree key s (LockStore.setIfAbsent now other holder seconds s).2 := by
  simp only [LockStore.setIfAbsent, change]
  split
  · exact ⟨rfl, rfl⟩
  · exact ⟨rfl, MemoryStore.lookup_setIfAbsent_ne hne holder seconds s.memory⟩

/-- Deleting another key changes nothing about the key. -/
theorem of_compareAndDelete (hne : key ≠ other) (now : Nat) (holder : Holder) (s : FaultyStore) :
    Agree key s (LockStore.compareAndDelete now other holder s).2 := by
  simp only [LockStore.compareAndDelete, change]
  split
  · exact ⟨rfl, rfl⟩
  · exact ⟨rfl, MemoryStore.lookup_compareAndDelete_ne hne holder s.memory⟩

end Agree

end FaultyStore

end JobFleet
