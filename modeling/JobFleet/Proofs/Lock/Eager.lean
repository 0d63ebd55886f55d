/-
  JobFleet.Proofs.Lock.Eager: what the store in memory answers, told by leases that vanish when they
  are over.

  The store takes out a lease that is over only when a call comes to its key.  Here it is compared
  with a map from which every lease vanishes at the very moment of its expiry (`LeaseMap`).  At each
  moment the store stands for the map of its live leases (`liveLeases`); a call on the store is
  answered as the map answers it, and leaves a store that stands for the map afterwards
  (`respond_liveLeases`).  As time goes on both lose the same leases (`liveLeases_later`), so by
  induction all answers agree.

  Main results:
    * `answers_eq` — to calls in order of time the store answers what the map answers.
    * `answers_filter` — the answers about a key are those that it would have had without the calls
      on other keys.
    * `attempt_iff` — a lock can be taken just when its key has no live lease.
    * `winners_eq` — of those who try to take a free lock at one moment the first gets it.
    * `acquired_iff` — a lock that is neither given back nor lengthened is free again when its time
      has passed.
-/
import Mathlib
import JobFleet.Fleet.Lock
import JobFleet.Proofs.Lock.Lease

namespace JobFleet

/-! ## Calls -/

/-- A call on a store of leases. -/
inductive LeaseCall
  | setIfAbsent (key : String) (holder : Holder) (seconds : Nat)
  | compareAndDelete (key : String) (holder : Holder)
  | compareAndExtend (key : String) (holder : Holder) (seconds : Nat)
  | isPresent (key : String)
  | secondsLeft (key : String)
  | get (key : String)
deriving DecidableEq, Repr

/-- The key that a call is about. -/
def LeaseCall.key : LeaseCall → String
  | setIfAbsent key _ _ => key
  | compareAndDelete key _ => key
  | compareAndExtend key _ _ => key
  | isPresent key => key
  | secondsLeft key => key
  | get key => key

/-- What a call is answered. -/
inductive LeaseAnswer
  | truth (answer : Bool)
  | number (answer : Int)
  | holder (answer : Option Holder)
deriving DecidableEq, Repr

/-- The calls come in order of time, none before a moment. -/
def Timely : Nat → List (Nat × LeaseCall) → Prop
  | _, [] => True
  | start, (now, _) :: later => start ≤ now ∧ Timely now later

/-- The answers to calls that are made one after the other, each at its moment. -/
def answers {σ : Type} (respond : Nat → LeaseCall → σ → LeaseAnswer × σ) :
    σ → List (Nat × LeaseCall) → List LeaseAnswer
  | _, [] => []
  | s, (now, call) :: later =>
    (respond now call s).1 :: answers respond (respond now call s).2 later

/-- A call on the store in memory. -/
def MemoryStore.respond (now : Nat) : LeaseCall → MemoryStore → LeaseAnswer × MemoryStore
  | .setIfAbsent key holder seconds, s => (s.setIfAbsent now key holder seconds).map .truth id
  | .compareAndDelete key holder, s => (s.compareAndDelete now key holder).map .truth id
  | .compareAndExtend key holder seconds, s =>
    (s.compareAndExtend now key holder seconds).map .truth id
  | .isPresent key, s => (s.isPresent now key).map .truth id
  | .secondsLeft key, s => (s.secondsLeft now key).map .number id
  | .get key, s => (s.get now key).map .holder id

/-! ## Leases that vanish when they are over -/

/-- What a call makes of the lease that it finds under its key: its answer, and the lease that it
    leaves there. -/
def LeaseCall.apply (now : Nat) : LeaseCall → Option Lease → LeaseAnswer × Option Lease
  | setIfAbsent _ holder seconds, none => (.truth true, some ⟨holder, now + 1000 * seconds⟩)
  | setIfAbsent .., some lease => (.truth false, some lease)
  | compareAndDelete _ holder, some lease =>
    if lease.holder = holder then (.truth true, none) else (.truth false, some lease)
  | compareAndDelete .., none => (.truth false, none)
  | compareAndExtend _ holder seconds, some lease =>
    if lease.holder = holder then (.truth true, some ⟨holder, lease.expiresAt + 1000 * seconds⟩)
    else (.truth false, some lease)
  | compareAndExtend .., none => (.truth false, none)
  | isPresent _, lease => (.truth lease.isSome, lease)
  | secondsLeft _, some lease => (.number ((lease.expiresAt - now) ⌈/⌉ 1000 : Nat), some lease)
  | secondsLeft _, none => (.number (-2), none)
  | get _, lease => (.holder (lease.map Lease.holder), lease)

/-- The leases by key. -/
abbrev LeaseMap : Type := String → Option Lease

namespace LeaseMap

/-- The leases that are there at a moment: each until its expiry, and at that moment not any
    more. -/
def present (now : Nat) (m : LeaseMap) : LeaseMap := fun key =>
    (m key).filter (fun lease => now < lease.expiresAt)

/-- A call at a moment: what is over by then has vanished, and the call finds what is left under its
    key. -/
def respond (now : Nat) (call : LeaseCall) (m : LeaseMap) : LeaseAnswer × LeaseMap :=
  let found := call.apply now (m.present now call.key)
  (found.1, Function.update (m.present now) call.key found.2)

theorem present_present {now later : Nat} (h : now ≤ later) (m : LeaseMap) :
    (m.present now).present later = m.present later := by
  funext key
  show ((m key).filter _).filter _ = (m key).filter _
  rw [Option.filter_filter]
  congr 1
  funext lease
  by_cases hl : later < lease.expiresAt
  · simp [hl, Nat.lt_of_le_of_lt h hl]
  · simp [hl]

end LeaseMap

/-! ## One call -/

namespace MemoryStore

variable {now later : Nat} {key : String} {call : LeaseCall}

/-- The live leases of the store at a moment. -/
def liveLeases (now : Nat) (s : MemoryStore) : LeaseMap := fun key => s.live? now key

theorem liveLeases_later (h : now ≤ later) (s : MemoryStore) :
    s.liveLeases later = (s.liveLeases now).present later :=
  (LeaseMap.present_present h s.lookup).symm

/-- A call leaves the leases of other keys alone. -/
theorem lookup_respond_ne (h : key ≠ call.key) (s : MemoryStore) :
    (s.respond now call).2.lookup key = s.lookup key := by
  cases call with
  | setIfAbsent k holder seconds => exact lookup_setIfAbsent_ne h holder seconds s
  | compareAndDelete k holder => exact lookup_compareAndDelete_ne h holder s
  | compareAndExtend k holder seconds =>
    show (s.compareAndExtend now k holder seconds).2.lookup key = _
    rw [compareAndExtend_eq]
    split
    · exact (lookup_insert_ne h _ _).trans (lookup_purge_ne h s)
    · exact lookup_purge_ne h s
  | isPresent k => exact lookup_purge_ne h s
  | secondsLeft k =>
    show (s.secondsLeft now k).2.lookup key = _
    unfold secondsLeft
    simp only
    split <;> exact lookup_purge_ne h s
  | get k => exact lookup_purge_ne h s

/-- A call goes by the live lease of its key, and makes of it what it makes of a lease that would
    have vanished. -/
theorem respond_apply (now : Nat) (call : LeaseCall) (s : MemoryStore) :
    ((s.respond now call).1, (s.respond now call).2.lookup call.key) =
      call.apply now (s.live? now call.key) := by
  cases call with
  | setIfAbsent k holder seconds =>
    simp only [respond, LeaseCall.key, Prod.map_fst, Prod.map_snd, id]
    cases h : s.live? now k with
    | none => simp [setIfAbsent_of_free holder seconds h, LeaseCall.apply]
    | some lease =>
      simp [setIfAbsent_of_live holder seconds h, LeaseCall.apply, lookup_purge_self, h]
  | compareAndDelete k holder =>
    simp only [respond, LeaseCall.key, Prod.map_fst, Prod.map_snd, id]
    rw [compareAndDelete_eq]
    cases h : s.live? now k with
    | none => simp [LeaseCall.apply, lookup_purge_self, h]
    | some lease =>
      -- a live lease changes only for its own holder
      by_cases hh : lease.holder = holder <;> simp [LeaseCall.apply, hh, lookup_purge_self, h]
  | compareAndExtend k holder seconds =>
    simp only [respond, LeaseCall.key, Prod.map_fst, Prod.map_snd, id]
    rw [compareAndExtend_eq]
    cases h : s.live? now k with
    | none => simp [LeaseCall.apply, lookup_purge_self, h]
    | some lease =>
      by_cases hh : lease.holder = holder <;> simp [LeaseCall.apply, hh, Option.filter,
        lookup_purge_self, h]
  | isPresent k => simp [respond, LeaseCall.key, LeaseCall.apply, isPresent, lookup_purge_self]
  | secondsLeft k =>
    simp only [respond, LeaseCall.key, Prod.map_fst, Prod.map_snd, id, secondsLeft,
      lookup_purge_self]
    cases h : s.live? now k with
    | none => simp [LeaseCall.apply, lookup_purge_self, h]
    | some lease => simp [LeaseCall.apply, lookup_purge_self, h, Nat.ceilDiv_eq_add_pred_div]
  | get k => simp [respond, LeaseCall.key, LeaseCall.apply, get, lookup_purge_self]

/-- A call is answered as by the live leases, and leaves what it makes of them. -/
theorem respond_liveLeases (now : Nat) (call : LeaseCall) (s : MemoryStore) :
    (s.respond now call).1 = ((s.liveLeases now).respond now call).1 ∧
      (s.respond now call).2.liveLeases now =
        (((s.liveLeases now).respond now call).2).present now := by
  have happly := respond_apply now call s
  have hself : (s.liveLeases now).present now = s.liveLeases now :=
    (liveLeases_later (Nat.le_refl now) s).symm
  unfold LeaseMap.respond
  rw [hself]
  refine ⟨congrArg Prod.fst happly, ?_⟩
  funext key
  show ((s.respond now call).2.lookup key).filter _ =
    ((Function.update (s.liveLeases now) call.key (call.apply now (s.live? now call.key)).2)
      key).filter _
  by_cases h : key = call.key
  · subst h
    rw [Function.update_self, ← happly]
  · rw [Function.update_of_ne h, lookup_respond_ne h]
    exact congrFun (liveLeases_later (Nat.le_refl now) s) key

/-! ## All calls -/

/-- The store after some calls. -/
def after (s : MemoryStore) (calls : List (Nat × LeaseCall)) : MemoryStore :=
  calls.foldl (fun s c => (s.respond c.1 c.2).2) s

/-- A store that stands for a map answers calls in order of time as the map does. -/
theorem answers_eq {calls : List (Nat × LeaseCall)} {s : MemoryStore} {m : LeaseMap}
    (hcalls : Timely now calls) (hm : s.liveLeases now = m.present now) :
    answers respond s calls = answers LeaseMap.respond m calls := by
  induction calls generalizing now s m with
  | nil => rfl
  | cons c rest ih =>
    obtain ⟨moment, call⟩ := c
    obtain ⟨hle, hrest⟩ := hcalls
    -- by the moment of the call both have lost the same leases
    have hpresent : s.liveLeases moment = m.present moment := by
      rw [liveLeases_later hle, hm, LeaseMap.present_present hle]
    have hm' : LeaseMap.respond moment call m =
        LeaseMap.respond moment call (s.liveLeases moment) := by
      unfold LeaseMap.respond
      rw [hpresent, LeaseMap.present_present (Nat.le_refl moment)]
    obtain ⟨hanswer, hleft⟩ := respond_liveLeases moment call s
    show _ :: _ = _ :: _
    rw [hm', hanswer, ih hrest hleft]

/-- What a call on a key is answered depends on the lease of the key only, as does the lease it
    leaves. -/
theorem respond_congr (now : Nat) {call : LeaseCall} {s s' : MemoryStore}
    (h : s'.lookup call.key = s.lookup call.key) :
    (s'.respond now call).1 = (s.respond now call).1 ∧
      (s'.respond now call).2.lookup call.key = (s.respond now call).2.lookup call.key := by
  have hlive : s'.live? now call.key = s.live? now call.key := by
    unfold live?
    rw [h]
  have hsame := respond_apply now call s'
  rw [hlive, ← respond_apply now call s] at hsame
  exact Prod.mk.inj hsame

/-- The answers about a key are those that it would have had without the calls on other keys. -/
theorem answers_filter (key : String) {calls : List (Nat × LeaseCall)} {s s' : MemoryStore}
    (h : s'.lookup key = s.lookup key) :
    ((calls.zip (answers respond s calls)).filter (fun e => e.1.2.key = key)).map Prod.snd =
      answers respond s' (calls.filter (fun c => c.2.key = key)) := by
  induction calls generalizing s s' with
  | nil => rfl
  | cons c rest ih =>
    obtain ⟨moment, call⟩ := c
    show List.map Prod.snd (List.filter _ (((moment, call), _) :: rest.zip _)) = _
    by_cases hkey : call.key = key
    · subst hkey
      obtain ⟨hanswer, hlookup⟩ := respond_congr moment h
      rw [List.filter_cons_of_pos (by simp), List.filter_cons_of_pos (by simp), List.map_cons]
      show _ = _ :: _
      rw [ih hlookup, hanswer]
    · rw [List.filter_cons_of_neg (by simpa using hkey),
        List.filter_cons_of_neg (by simpa using hkey)]
      exact ih (h.trans (lookup_respond_ne (Ne.symm hkey) s).symm)

/-! ## A lease that is left to itself -/

/-- The call neither gives back nor lengthens the lease of a holder, and does not set its key once
    the lease is over. -/
def Spares (key : String) (lease : Lease) : Nat × LeaseCall → Prop
  | (now, .setIfAbsent k _ _) => k = key → now < lease.expiresAt
  | (_, .compareAndDelete k holder) => k = key → holder ≠ lease.holder
  | (_, .compareAndExtend k holder _) => k = key → holder ≠ lease.holder
  | _ => True

variable {lease : Lease}

theorem filter_of_lt (h : now < lease.expiresAt) :
    (some lease).filter (fun lease => now < lease.expiresAt) = some lease := by
  simp [Option.filter, h]

/-- Such a call leaves under the key what it finds there, the lease or nothing. -/
theorem apply_of_spares {now : Nat} {call : LeaseCall} (h : Spares call.key lease (now, call)) :
    (call.apply now ((some lease).filter (fun lease => now < lease.expiresAt))).2 =
      (some lease).filter (fun lease => now < lease.expiresAt) := by
  by_cases hlive : now < lease.expiresAt
  · rw [filter_of_lt hlive]
    cases call with
    | compareAndDelete k holder => simp [LeaseCall.apply, Ne.symm (h rfl)]
    | compareAndExtend k holder seconds => simp [LeaseCall.apply, Ne.symm (h rfl)]
    | _ => rfl
  · rw [show (some lease).filter (fun lease => now < lease.expiresAt) =
      none by simp [Option.filter, hlive]]
    cases call with
    | setIfAbsent k holder seconds => exact absurd (h rfl) hlive
    | _ => rfl

/-- Time alone takes a lease away just at its expiry. -/
theorem live?_later {s : MemoryStore} (hle : now ≤ later)
    (hs : s.live? now key = (some lease).filter (fun lease => now < lease.expiresAt)) :
    s.live? later key = (some lease).filter (fun lease => later < lease.expiresAt) := by
  have hfound : s.live? later key =
      (s.live? now key).filter (fun lease => later < lease.expiresAt) :=
    congrFun (liveLeases_later hle s) key
  rw [hfound, hs]
  exact congrFun (LeaseMap.present_present hle (fun _ => some lease)) key

/-- The lease stays until its expiry and is gone from then on, whatever is called in between. -/
theorem live?_after {start finish : Nat} {calls : List (Nat × LeaseCall)} {s : MemoryStore}
    (hcalls : Timely start calls) (hspares : ∀ c ∈ calls, Spares key lease c)
    (hfinish : start ≤ finish) (hlast : ∀ c ∈ calls, c.1 ≤ finish)
    (hs : s.live? start key = (some lease).filter (fun lease => start < lease.expiresAt)) :
    (s.after calls).live? finish key =
      (some lease).filter (fun lease => finish < lease.expiresAt) := by
  induction calls generalizing start s with
  | nil => exact live?_later hfinish hs
  | cons c rest ih =>
    obtain ⟨moment, call⟩ := c
    obtain ⟨hle, hrest⟩ := hcalls
    have hlive := live?_later hle hs
    have hstep : (s.respond moment call).2.live? moment key =
        (some lease).filter (fun lease => moment < lease.expiresAt) := by
      by_cases hkey : key = call.key
      · subst hkey
        have hleft := congrArg Prod.snd (respond_apply moment call s)
        have hkept := apply_of_spares (hspares _ List.mem_cons_self)
        rw [hlive, hkept] at hleft
        show ((s.respond moment call).2.lookup call.key).filter _ = _
        rw [show (s.respond moment call).2.lookup call.key = _ from hleft, Option.filter_filter]
        simp
      · show ((s.respond moment call).2.lookup key).filter _ = _
        rw [lookup_respond_ne hkey]
        exact hlive
    exact ih hrest (fun c hc => hspares c (List.mem_cons_of_mem _ hc)) (hlast _ List.mem_cons_self)
      (fun c hc => hlast c (List.mem_cons_of_mem _ hc)) hstep

end MemoryStore

/-! ## Locks -/

namespace Lock

open MemoryStore

variable {l : Lock} {id : String} {ttlMillis number : Nat} {deadline : Option Nat}
    {w : World MemoryStore}

/-- An attempt is one call on the store, made at once. -/
theorem attempt_world (l : Lock) (id : String) (ttlMillis : Nat)
    (deadline : Option Nat) (number : Nat) (w : World MemoryStore) :
    (l.attempt id ttlMillis deadline number w).2.elapsed = w.elapsed ∧
      (l.attempt id ttlMillis deadline number w).2.locks =
        (w.locks.setIfAbsent w.elapsed (l.key id) l.holder (wholeSeconds ttlMillis)).2 := by
  have hjudge : ∀ (answer : Except LockStoreError Bool) (w' : World MemoryStore),
      (l.judge deadline number answer w').2.elapsed = w'.elapsed ∧
      (l.judge deadline number answer w').2.locks = w'.locks := by
    intro answer w'
    cases answer with
    | error e => exact ⟨rfl, rfl⟩
    | ok yes =>
      cases yes with
      | true => exact ⟨rfl, rfl⟩
      | false =>
        unfold judge
        simp only
        split <;> exact ⟨rfl, rfl⟩
  exact hjudge _ _

/-- A lock can be taken just when its key has no live lease. -/
theorem attempt_iff : (l.attempt id ttlMillis deadline number w).1 = .acquired ↔
    w.locks.live? w.elapsed (l.key id) = none := by
  show (l.judge deadline number
    (.ok (w.locks.setIfAbsent w.elapsed (l.key id) l.holder (wholeSeconds ttlMillis)).1) _).1 =
    .acquired ↔ _
  cases hlive : w.locks.live? w.elapsed (l.key id) with
  | none =>
    rw [setIfAbsent_of_free _ _ hlive]
    exact ⟨fun _ => rfl, fun _ => rfl⟩
  | some lease =>
    rw [setIfAbsent_of_live _ _ hlive]
    unfold judge
    simp only
    split <;> simp

theorem isLocked_eq (l : Lock) (id : String) (w : World MemoryStore) :
    l.isLocked id w = .ok (w.locks.live? w.elapsed (l.key id)).isSome := by
  show Except.ok ((w.locks.purge w.elapsed (l.key id)).lookup (l.key id)).isSome = _
  rw [lookup_purge_self]

theorem remaining_eq (l : Lock) (id : String) (w : World MemoryStore) :
    l.remaining id w = .ok ((w.locks.live? w.elapsed (l.key id)).map
      (fun lease => (((lease.expiresAt - w.elapsed) ⌈/⌉ 1000 : Nat) : Int))) := by
  show (Except.ok (w.locks.secondsLeft w.elapsed (l.key id)).1 :
    Except LockStoreError Int).map _ = _
  simp only [secondsLeft, lookup_purge_self]
  cases w.locks.live? w.elapsed (l.key id) with
  | none => rfl
  | some lease =>
    show Except.ok (if (0 : Int) ≤ (((lease.expiresAt - w.elapsed + 999) / 1000 : Nat) : Int) then _
      else _) = _
    rw [if_pos (Int.natCast_nonneg _)]
    rfl

/-- The three views of a lock agree: it cannot be taken, someone holds it, and it has time left. -/
theorem views_agree (l : Lock) (id : String) (ttlMillis : Nat)
    (deadline : Option Nat) (number : Nat) (w : World MemoryStore) :
    ((l.attempt id ttlMillis deadline number w).1 ≠ .acquired ↔ l.isLocked id w = .ok true) ∧
      (l.isLocked id w = .ok true ↔ ∃ seconds, l.remaining id w = .ok (some seconds)) := by
  rw [Ne, attempt_iff, isLocked_eq, remaining_eq]
  cases w.locks.live? w.elapsed (l.key id) <;> simp

/-! ## Contenders -/

/-- Someone who tries to take a lock. -/
structure Contender where
  lock : Lock
  id : String
  ttlMillis : Nat
  deadline : Option Nat

/-- The first attempt of a contender. -/
def Contender.attempt (c : Contender) (w : World MemoryStore) : Verdict × World MemoryStore :=
  c.lock.attempt c.id c.ttlMillis c.deadline 1 w

/-- Which of those who try, one after the other at one moment, take their lock. -/
def winners (w : World MemoryStore) : List Contender → List Bool
  | [] => []
  | c :: rest => decide ((c.attempt w).1 = .acquired) :: winners (c.attempt w).2 rest

/-- Whoever takes a lock has a live lease, for at least a second. -/
theorem live?_of_free (l : Lock) (id : String) (ttlMillis : Nat)
    (deadline : Option Nat) (number : Nat) {w : World MemoryStore}
    (h : w.locks.live? w.elapsed (l.key id) = none) :
    (l.attempt id ttlMillis deadline number w).2.locks.live? w.elapsed (l.key id) =
      some ⟨l.holder, w.elapsed + 1000 * wholeSeconds ttlMillis⟩ := by
  rw [(attempt_world l id ttlMillis deadline number w).2, setIfAbsent_of_free _ _ h]
  refine live?_eq_some.2 ⟨lookup_insert_self _ _ _, ?_⟩
  show w.elapsed < w.elapsed + 1000 * max (ttlMillis / 1000) 1
  omega

/-- Nobody takes a lock that someone holds, and it stays held. -/
theorem winners_of_live {key : String} {lease : Lease} {contenders : List Contender}
    {w : World MemoryStore} (hkey : ∀ c ∈ contenders, c.lock.key c.id = key)
    (h : w.locks.live? w.elapsed key = some lease) :
    winners w contenders = contenders.map (fun _ => false) := by
  induction contenders generalizing w with
  | nil => rfl
  | cons c rest ih =>
    obtain ⟨hfirst, hrest⟩ := List.forall_mem_cons.1 hkey
    have hrefused : (c.attempt w).1 ≠ .acquired := by
      rw [Ne, Contender.attempt, attempt_iff, hfirst, h]
      simp
    have hlive : (c.attempt w).2.locks.live? (c.attempt w).2.elapsed key = some lease := by
      obtain ⟨helapsed, hlocks⟩ := attempt_world c.lock c.id c.ttlMillis c.deadline 1 w
      rw [Contender.attempt, helapsed, hlocks, hfirst, setIfAbsent_of_live _ _ h, live?_purge]
      exact h
    show decide ((c.attempt w).1 = .acquired) :: winners (c.attempt w).2 rest = _ :: _
    rw [decide_eq_false hrefused, ih hrest hlive]

/-- Of those who try to take a free lock at one moment the first gets it, and no one else. -/
theorem winners_eq {key : String} {first : Contender} {rest : List Contender}
    {w : World MemoryStore} (hkey : ∀ c ∈ first :: rest, c.lock.key c.id = key)
    (h : w.locks.live? w.elapsed key = none) :
    winners w (first :: rest) = true :: rest.map (fun _ => false) := by
  obtain ⟨hfirst, hrest⟩ := List.forall_mem_cons.1 hkey
  subst hfirst
  have hlive : (first.attempt w).2.locks.live? (first.attempt w).2.elapsed
    (first.lock.key first.id) =
      some ⟨first.lock.holder, w.elapsed + 1000 * wholeSeconds first.ttlMillis⟩ := by
    rw [Contender.attempt, (attempt_world first.lock first.id first.ttlMillis first.deadline 1 w).1]
    exact live?_of_free first.lock first.id first.ttlMillis first.deadline 1 h
  have hwins : (first.attempt w).1 = .acquired := attempt_iff.2 h
  show decide ((first.attempt w).1 = .acquired) :: winners (first.attempt w).2 rest = _ :: _
  rw [decide_eq_true hwins, winners_of_live hrest hlive]

/-! ## Time to live -/

/-- A lock that is taken and then neither given back nor lengthened by its holder can be taken again
    just when its time has passed. -/
theorem acquired_iff {l' : Lock} {id' : String} {ttlMillis' number' : Nat} {deadline' : Option Nat}
    {v : World MemoryStore} {calls : List (Nat × LeaseCall)}
    (hacquired : (l.attempt id ttlMillis deadline number w).1 = .acquired)
    (hcalls : Timely w.elapsed calls) (hfinish : w.elapsed ≤ v.elapsed)
    (hlast : ∀ c ∈ calls, c.1 ≤ v.elapsed)
    (hspares : ∀ c ∈ calls, Spares (l.key id) ⟨l.holder,
      w.elapsed + 1000 * wholeSeconds ttlMillis⟩ c)
    (hv : v.locks = (l.attempt id ttlMillis deadline number w).2.locks.after calls)
    (hkey : l'.key id' = l.key id) :
    (l'.attempt id' ttlMillis' deadline' number' v).1 = .acquired ↔
      w.elapsed + 1000 * wholeSeconds ttlMillis ≤ v.elapsed := by
  have htaken := live?_of_free l id ttlMillis deadline number (attempt_iff.1 hacquired)
  have hstart := htaken
  rw [← filter_of_lt (live?_eq_some.1 htaken).2] at hstart
  rw [attempt_iff, hkey, hv, live?_after hcalls hspares hfinish hlast hstart,
    Option.filter_eq_none_iff]
  simp

end Lock

/-! ## The store as a map of leases that vanish -/

open MemoryStore in
/-- **The store in memory is a map from which leases vanish at their expiry.**  To calls in order of
    time it answers what the map answers, and calls on one key change no answer about another.  So
    at every moment the views of a lock agree; of those who try to take a free lock at one moment
    just the first gets it; and a lock that is neither given back nor lengthened by its holder can
    be taken again just when its time has passed. -/
theorem refines_vanishing_leases (calls : List (Nat × LeaseCall)) (hcalls : Timely 0 calls) :
    answers MemoryStore.respond {} calls = answers LeaseMap.respond (fun _ => none) calls ∧
    (∀ key, ((calls.zip (answers MemoryStore.respond {} calls)).filter (fun e =>
      e.1.2.key = key)).map Prod.snd =
      answers MemoryStore.respond {} (calls.filter (fun c => c.2.key = key))) ∧
    (∀ (l : Lock) (id : String) (ttlMillis : Nat) (deadline : Option Nat) (number : Nat)
      (w : World MemoryStore),
      ((l.attempt id ttlMillis deadline number w).1 ≠ .acquired ↔ l.isLocked id w = .ok true) ∧
        (l.isLocked id w = .ok true ↔ ∃ seconds, l.remaining id w = .ok (some seconds))) ∧
    (∀ (first : Lock.Contender) (rest : List Lock.Contender) (key : String) (w : World MemoryStore),
      (∀ c ∈ first :: rest, c.lock.key c.id = key) → w.locks.live? w.elapsed key = none →
        Lock.winners w (first :: rest) = true :: rest.map (fun _ => false)) ∧
    ∀ (l : Lock) (id : String) (ttlMillis : Nat) (deadline : Option Nat) (number : Nat)
      (w v : World MemoryStore) (later : List (Nat × LeaseCall)),
      (l.attempt id ttlMillis deadline number w).1 = .acquired →
      Timely w.elapsed later → w.elapsed ≤ v.elapsed → (∀ c ∈ later, c.1 ≤ v.elapsed) →
      (∀ c ∈ later, Spares (l.key id) ⟨l.holder,
        w.elapsed + 1000 * Lock.wholeSeconds ttlMillis⟩ c) →
      v.locks = (l.attempt id ttlMillis deadline number w).2.locks.after later →
      ∀ (l' : Lock) (id' : String) (ttlMillis' : Nat) (deadline' : Option Nat) (number' : Nat),
        l'.key id' = l.key id →
        ((l'.attempt id' ttlMillis' deadline' number' v).1 = .acquired ↔
          w.elapsed + 1000 * Lock.wholeSeconds ttlMillis ≤ v.elapsed) := by
  refine ⟨answers_eq hcalls rfl, fun key => answers_filter key rfl, ?_, ?_, ?_⟩
  · exact fun l id ttlMillis deadline number w => Lock.views_agree l id ttlMillis deadline number w
  · exact fun first rest key w hkey hfree => Lock.winners_eq hkey hfree
  · intro l id ttlMillis deadline number w v later hacquired hlater hfinish hlast hspares hv
      l' id' _ _ _ hkey
    exact Lock.acquired_iff hacquired hlater hfinish hlast hspares hv hkey

/-- The first holder sets a key for a second and lengthens it by two; the second gets it when the
    three seconds are over, and the first cannot give it back then. -/
def takingOver : List (Nat × LeaseCall) :=
  [(0, .setIfAbsent "lock" (.scheduler 0) 1), (500, .setIfAbsent "lock" (.scheduler 1) 1),
    (999, .compareAndExtend "lock" (.scheduler 0) 2), (999, .secondsLeft "lock"),
    (1500, .isPresent "other"), (2999, .setIfAbsent "lock" (.scheduler 1) 1),
    (3000, .setIfAbsent "lock" (.scheduler 1) 1), (3000, .compareAndDelete "lock" (.scheduler 0)),
    (3999, .get "lock"), (4000, .get "lock"), (4000, .secondsLeft "lock")]

theorem refines_vanishing_leases_takingOver : Timely 0 takingOver ∧
    answers MemoryStore.respond {} takingOver =
      [.truth true, .truth false, .truth true, .number 3, .truth false, .truth false,
        .truth true, .truth false, .holder (some (.scheduler 1)), .holder none, .number (-2)] := by
  have htimely : Timely 0 takingOver := by simp [takingOver, Timely]
  refine ⟨htimely, ?_⟩
  rw [(refines_vanishing_leases takingOver htimely).1]
  decide

end JobFleet
