/-
  JobFleet.Proofs.Fleet.Readings: the fire times of a driver, whatever the clock shows.

  Between two questions to its trigger a driver reads the clock, and the clock may have stood still,
  jumped ahead or been set back.  So nothing is assumed of the readings: they are any sequence, and
  `fireTime?` is what the driver is answered when it asks at one reading after the other.  What one
  answer says about the last fire time and the reading (`lt_of_next?`, `le_of_next?`,
  `steps_of_next?`) carries over to all answers by induction.

  Main results:
    * `fireTime?_lt` — of two fire times the later answer is the later time.
    * `fires_in_order` — fire times are in strict order, none has passed, and an interval keeps its
      cadence.
    * `afterTurns_fireTime?` — a driver that has its turns at the readings waits for just these fire
      times.
-/
import JobFleet.Proofs.Schedule.Earliest
import JobFleet.Proofs.Schedule.Cadence
import JobFleet.Proofs.Fleet.Turns

namespace JobFleet

open JobFleet.Time

namespace Schedule

/-! ## One answer -/

/-- In whatever zone the trigger is evaluated, times that clocks show once come in order. -/
def Trigger.InOrder : Trigger → Prop
  | .interval _ => True
  | .cron c => c.zone.Orderly

namespace IntervalTrigger

variable {i : IntervalTrigger} {before now next : Instant}

/-- An answer lies a positive number of whole periods after the last fire time. -/
theorem steps_of_next? (h : i.next? (some before) now = some next) :
    0 < i.seconds ∧ ∃ steps : Nat, 0 < steps ∧ next.nanos =
      before.nanos + steps * (i.seconds * nanosPerSecond) := by
  unfold next? at h
  obtain ⟨period, hperiod, h⟩ := Option.bind_eq_some_iff.1 h
  have hpos := period_pos hperiod
  have hseconds : 0 < i.seconds ∧ (i.seconds : Int) * nanosPerSecond = period := by
    unfold period? at hperiod
    split at hperiod
    · rename_i hbounds
      exact ⟨hbounds.1, Option.some.inj hperiod⟩
    · cases hperiod
  obtain ⟨first, hfirst, h⟩ := Option.bind_eq_some_iff.1 h
  have hnanos := (Instant.later?_eq_some.1 hfirst).1
  refine ⟨hseconds.1, ?_⟩
  rw [hseconds.2]
  split at h
  · cases h
    exact ⟨1, Nat.one_pos, by omega⟩
  -- the first period has passed, and so have some more
  · rename_i hpassed
    simp only at h
    split at h
    · have hskip := (Instant.later?_eq_some.1 h).1
      have hlate : first.nanos < now.nanos := Int.not_le.1 hpassed
      have hmissed : 0 ≤ (now.nanos - first.nanos) / period :=
        Int.ediv_nonneg (by omega) (Int.le_of_lt hpos)
      generalize (now.nanos - first.nanos) / period = missed at hskip hmissed
      refine ⟨(missed + 2).toNat, by omega, ?_⟩
      rw [show (((missed + 2).toNat : Nat) : Int) = missed + 2 by omega, Int.add_mul missed 2,
        Int.mul_comm missed]
      rw [Int.mul_add] at hskip
      omega
    · cases h

end IntervalTrigger

namespace Trigger

variable {t : Trigger} {before now next : Instant}

/-- An answer is later than the last fire time. -/
theorem lt_of_next? (ht : t.InOrder) (h : t.next? (some before) now = some next) :
    before < next := by
  show before.nanos < next.nanos
  cases t with
  | interval i =>
    obtain ⟨hseconds, steps, hsteps, hnext⟩ := IntervalTrigger.steps_of_next? h
    have hperiod : 0 < (i.seconds : Int) * nanosPerSecond := Int.mul_pos (by omega) (by decide)
    have hmore : 0 < (steps : Int) * (i.seconds * nanosPerSecond) := Int.mul_pos (by omega) hperiod
    omega
  | cron c =>
    have hlt : (max before now).nanos < next.nanos := CronTrigger.lt_of_nextAfter? ht h
    have hmax : before.nanos ≤ (max before now).nanos := by
      show before.nanos ≤ (if before ≤ now then now else before).nanos
      split
      · rename_i hle
        exact hle
      · exact Int.le_refl _
    omega

/-- An answer is not before the reading. -/
theorem le_of_next? (ht : t.InOrder) {previous : Option Instant}
    (h : t.next? previous now = some next) : now ≤ next := by
  cases t with
  | interval i => exact looksAhead_interval i _ _ _ h
  | cron c => exact looksAhead_cron ht _ _ _ h

/-! ## All answers -/

/-- What the trigger answers to the question at each reading of the clock, given the answer before
    it; after a question without an answer there are no more. -/
def fireTime? (t : Trigger) (clock : Nat → Instant) : Nat → Option Instant
  | 0 => t.next? none (clock 0)
  | k + 1 => (t.fireTime? clock k).bind (fun before => t.next? (some before) (clock (k + 1)))

variable {clock : Nat → Instant} {j k : Nat} {x y : Instant}

theorem fireTime?_succ (h : t.fireTime? clock (k + 1) = some y) :
    ∃ x, t.fireTime? clock k = some x ∧ t.next? (some x) (clock (k + 1)) = some y :=
  Option.bind_eq_some_iff.1 h

theorem le_fireTime? (ht : t.InOrder) (h : t.fireTime? clock k = some x) : clock k ≤ x := by
  cases k with
  | zero => exact le_of_next? ht h
  | succ k =>
    obtain ⟨before, -, hnext⟩ := fireTime?_succ h
    exact le_of_next? ht hnext

theorem fireTime?_lt (ht : t.InOrder) (hjk : j < k) (hx : t.fireTime? clock j = some x)
    (hy : t.fireTime? clock k = some y) : x < y := by
  induction hjk generalizing y with
  | refl =>
    obtain ⟨before, hbefore, hnext⟩ := fireTime?_succ hy
    rw [hx] at hbefore
    cases hbefore
    exact lt_of_next? ht hnext
  | step _ ih =>
    obtain ⟨before, hbefore, hnext⟩ := fireTime?_succ hy
    exact Int.lt_trans (ih hbefore) (lt_of_next? ht hnext)

/-- An interval fires whole periods after it fired first. -/
theorem fireTime?_interval {i : IntervalTrigger} {first : Instant}
    (hfirst : (Trigger.interval i).fireTime? clock 0 = some first)
    (h : (Trigger.interval i).fireTime? clock k = some x) :
    ∃ steps : Nat, x.nanos = first.nanos + steps * (i.seconds * nanosPerSecond) := by
  induction k generalizing x with
  | zero =>
    rw [hfirst] at h
    cases h
    exact ⟨0, by omega⟩
  | succ k ih =>
    obtain ⟨before, hbefore, hnext⟩ := fireTime?_succ h
    obtain ⟨made, hmade⟩ := ih hbefore
    obtain ⟨-, more, -, hmore⟩ := IntervalTrigger.steps_of_next? hnext
    refine ⟨made + more, ?_⟩
    rw [Int.natCast_add, Int.add_mul]
    omega

/-- **No instant fires twice, whatever the clock shows.**  At any readings, be they repeated, ahead
    or set back, the fire times of a trigger are in strict order, none has passed at the reading it
    is answered to, and those of an interval lie whole periods after the first. -/
theorem fires_in_order (t : Trigger) (ht : ∀ c, t = .cron c → c.zone.Orderly)
    (clock : Nat → Instant) :
    (∀ j k x y, j < k → t.fireTime? clock j = some x → t.fireTime? clock k = some y → x < y) ∧
      (∀ k x, t.fireTime? clock k = some x → clock k ≤ x) ∧
      ∀ i, t = .interval i → ∀ k first x, t.fireTime? clock 0 = some first →
        t.fireTime? clock k = some x →
        ∃ periods : Nat, x.nanos - first.nanos = periods * (i.seconds * nanosPerSecond) := by
  have horder : t.InOrder := by
    cases t with
    | interval i => exact trivial
    | cron c => exact ht c rfl
  refine ⟨fun j k x y hjk hx hy => fireTime?_lt horder hjk hx hy,
    fun k x hx => le_fireTime? horder hx, ?_⟩
  intro i hi k first x hfirst hx
  subst hi
  obtain ⟨periods, hperiods⟩ := fireTime?_interval hfirst hx
  exact ⟨periods, by omega⟩

/-- A clock that is set back eleven days after the first question, and later shows the time
    again. -/
def settingBack : Nat → Instant
  | 0 => .ofSeconds 1710003600
  | 1 => .ofSeconds 1709000000
  | _ => .ofSeconds 1710300000

/-- The job at half past two does not fire again in the night for which it was set before the clock
    went back. -/
theorem fires_in_order_settingBack :
    (∀ c, Trigger.cron halfPastTwo = .cron c → c.zone.Orderly) ∧
      (Trigger.cron halfPastTwo).fireTime? settingBack 0 = some (.ofSeconds 1710138600) ∧
      (Trigger.cron halfPastTwo).fireTime? settingBack 1 = some (.ofSeconds 1710225000) ∧
      ∃ x, (Trigger.cron halfPastTwo).fireTime? settingBack 2 = some x ∧
        Instant.ofSeconds 1710225000 < x ∧
        settingBack 2 ≤ x := by
  have hzone : ∀ c, Trigger.cron halfPastTwo = .cron c → c.zone.Orderly := by
    intro c hc
    cases hc
    exact steady_newYork.orderly
  have hsecond : (Trigger.cron halfPastTwo).fireTime? settingBack 1 =
      some (.ofSeconds 1710225000) := by decide +kernel
  have hthird : (Trigger.cron halfPastTwo).fireTime? settingBack 2 =
      some (.ofSeconds 1710311400) := by decide +kernel
  obtain ⟨horder, hahead, -⟩ := fires_in_order (.cron halfPastTwo) hzone settingBack
  exact ⟨hzone, by decide +kernel, hsecond, _, hthird, horder 1 2 _ _ (by decide) hsecond hthird,
    hahead 2 _ hthird⟩

end Trigger

end Schedule

/-! ## The driver -/

namespace Driver

open Schedule

/-- What a driver is to do after its first turns, one at each reading of a clock. -/
def afterTurns (d : Driver) (clock : Nat → Instant) : Nat → Option Activity
  | 0 => some (.drive d)
  | k + 1 => (d.afterTurns clock k).bind (fun
    | .drive e => e.rest (clock k)
    | _ => none)

/-- A new driver whose turns come at the readings of a clock waits for one fire time after the
    other, and ends when there is none. -/
theorem afterTurns_fireTime? {d : Driver} (hgoes : d.stopping = false) (hnew : d.awaited = none)
    (clock : Nat → Instant) (k : Nat) : d.afterTurns clock (k + 1) =
      (d.trigger.fireTime? clock k).map (fun next => .drive { d with awaited := some next }) := by
  have hrest : ∀ awaited now, rest { d with awaited := awaited } now =
      (d.trigger.next? awaited now).map (fun next => .drive { d with awaited := some next }) :=
    fun awaited now => if_neg (by simp [hgoes])
  induction k with
  | zero =>
    show d.rest (clock 0) = _
    rw [show d = { d with awaited := none } from hnew ▸ rfl, hrest]
    rfl
  | succ k ih =>
    show (d.afterTurns clock (k + 1)).bind _ = ((d.trigger.fireTime? clock k).bind _).map _
    rw [ih]
    cases d.trigger.fireTime? clock k with
    | none => rfl
    | some before => exact hrest (some before) (clock (k + 1))

end Driver

end JobFleet
