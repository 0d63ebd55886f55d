/-
  JobFleet.Proofs.Schedule.Cadence: the fire times that a trigger has from a moment on.

  An interval fires one period after the moment, and then one period after it last fired.  A cron
  expression fires at the first instant after the moment that it allows, and then at the first one
  after that.  So a trigger is a function from an instant to the next one (`after?`), and its fire
  times are what comes of it again and again (`nth?`).  A driver that asks at the very instants gets
  just these answers, as long as the calendar lasts.

  Main results:
    * `next?_none`, `next?_nth` — the answers that a driver gets.
    * `nth?_interval`, `yields_interval` — the fire times of an interval lie whole periods after the
      moment.
    * `nth_lt_nth` — fire times are in strict order.
-/
import JobFleet.Proofs.Schedule.Ahead

namespace JobFleet.Schedule

open JobFleet.Time

namespace Trigger

variable {t : Trigger} {since x y : Instant} {j k : Nat}

/-- The fire time after an instant at which the trigger fired, or was set. -/
def after? : Trigger → Instant → Option Instant
  | .interval i, x => x.later? (i.seconds * nanosPerSecond)
  | .cron c, x => c.nextAfter? x

/-- The fire times from a moment on, counted from zero. -/
def nth? (t : Trigger) (since : Instant) : Nat → Option Instant
  | 0 => t.after? since
  | k + 1 => (t.nth? since k).bind t.after?

/-- The trigger can be the one of a schedule: an interval is neither zero nor too long, and a cron
    expression is evaluated in an orderly zone. -/
def IsDeclared : Trigger → Prop
  | .interval i => 1 ≤ i.seconds ∧ i.seconds ≤ maxIntervalSeconds
  | .cron c => c.zone.Orderly

/-- The trigger of a schedule is one that a schedule can have. -/
theorem isDeclared_ofSchedule {job : String} {schedule : JobFleet.Schedule} {zone : Zone}
    (hzone : zone.Orderly) (h : Trigger.ofSchedule job schedule zone = .ok t) : t.IsDeclared := by
  unfold Trigger.ofSchedule at h
  split at h
  · rename_i expression _ _
    -- the reader keeps the zone
    cases hparse : CronTrigger.parse expression zone with
    | error e =>
      rw [hparse] at h
      cases h
    | ok c =>
      rw [hparse] at h
      cases h
      show c.zone.Orderly
      rw [CronTrigger.zone_of_parse hparse]
      exact hzone
  · split at h
    · rename_i hbounds
      cases h
      exact hbounds
    · cases h
  · cases h
  · cases h

/-- Such a trigger answers instants that are to come. -/
theorem IsDeclared.looksAhead (h : t.IsDeclared) : t.LooksAhead := by
  cases t with
  | interval i => exact looksAhead_interval i
  | cron c => exact looksAhead_cron h

/-! ## The answers that a driver gets -/

theorem period?_of_isDeclared {i : IntervalTrigger} (h : (Trigger.interval i).IsDeclared) :
    i.period? = some (i.seconds * nanosPerSecond) := by
  obtain ⟨hlow, hhigh⟩ := h
  have hlongest : maxIntervalSeconds ≤ IntervalTrigger.longestPeriod := by decide
  unfold IntervalTrigger.period?
  rw [if_pos ⟨hlow, Nat.le_trans hhigh hlongest⟩]

/-- The fire time after an instant is later than it. -/
theorem lt_of_after? (h : t.IsDeclared) (hx : t.after? since = some x) : since.nanos < x.nanos := by
  cases t with
  | interval i =>
    obtain ⟨hnanos, -⟩ := Instant.later?_eq_some.1 hx
    have hlow := h.1
    unfold nanosPerSecond at hnanos
    omega
  | cron c => exact CronTrigger.lt_of_nextAfter? h hx

/-- The first answer is the first fire time. -/
theorem next?_none (h : t.IsDeclared) : t.next? none since = t.nth? since 0 := by
  cases t with
  | interval i =>
    show i.next? none since = _
    unfold IntervalTrigger.next?
    rw [period?_of_isDeclared h]
    rfl
  | cron c => rfl

/-- A trigger that is asked at an instant at which it fired answers the next fire time. -/
theorem next?_after (h : t.IsDeclared) (x : Instant) : t.next? (some x) x = t.after? x := by
  cases t with
  | interval i =>
    show i.next? (some x) x = x.later? _
    unfold IntervalTrigger.next?
    rw [period?_of_isDeclared h]
    show (x.later? (i.seconds * nanosPerSecond)).bind _ = _
    cases hnext : x.later? (i.seconds * nanosPerSecond) with
    | none => rfl
    | some next =>
      -- the period has not passed when it begins
      have hle : x ≤ next := Int.le_of_lt (lt_of_after? h hnext)
      exact if_pos hle
  | cron c =>
    show c.nextAfter? (max x x) = c.nextAfter? x
    rw [show max x x = x from ite_self _]

/-- Asked at a fire time, a trigger answers the next one. -/
theorem next?_nth (h : t.IsDeclared) (hx : t.nth? since k = some x) :
    t.next? (some x) x = t.nth? since (k + 1) := by
  rw [next?_after h]
  show _ = (t.nth? since k).bind t.after?
  rw [hx]
  rfl

/-! ## Fire times in order -/

/-- After the last fire time there is none. -/
theorem nth?_none_mono (hjk : j ≤ k) (h : t.nth? since j = none) : t.nth? since k = none := by
  induction hjk with
  | refl => exact h
  | step _ ih =>
    show (t.nth? since _).bind t.after? = none
    rw [ih]
    rfl

/-- All fire times are later than the moment from which they are counted. -/
theorem lt_nth (h : t.IsDeclared) (hx : t.nth? since k = some x) : since.nanos < x.nanos := by
  induction k generalizing x with
  | zero => exact lt_of_after? h hx
  | succ k ih =>
    obtain ⟨before, hbefore, hafter⟩ := Option.bind_eq_some_iff.1 hx
    exact Int.lt_trans (ih hbefore) (lt_of_after? h hafter)

/-- Fire times are in strict order. -/
theorem nth_lt_nth (h : t.IsDeclared) (hjk : j < k) (hx : t.nth? since j = some x)
    (hy : t.nth? since k = some y) :
    x.nanos < y.nanos := by
  induction hjk generalizing y with
  | refl =>
    obtain ⟨before, hbefore, hafter⟩ := Option.bind_eq_some_iff.1 hy
    rw [hx, Option.some.injEq] at hbefore
    subst hbefore
    exact lt_of_after? h hafter
  | step _ ih =>
    obtain ⟨before, hbefore, hafter⟩ := Option.bind_eq_some_iff.1 hy
    exact Int.lt_trans (ih hbefore) (lt_of_after? h hafter)

/-- From a fire time on none is earlier. -/
theorem nth?_ne (h : t.IsDeclared) (hx : t.nth? since k = some x)
    (hlt : y.nanos < x.nanos) (hkj : k ≤ j) :
    t.nth? since j ≠ some y := by
  intro hy
  rcases Nat.eq_or_lt_of_le hkj with rfl | hlater
  · rw [hx, Option.some.injEq] at hy
    rw [hy] at hlt
    exact Int.lt_irrefl _ hlt
  · exact Int.lt_irrefl _ (Int.lt_trans hlt (nth_lt_nth h hlater hx hy))

/-- The fire times of an interval lie whole periods after the moment. -/
theorem nth?_interval {i : IntervalTrigger} (hsince : Instant.earliest ≤ since) (k : Nat) :
    (Trigger.interval i).nth? since k = since.later? ((k + 1) * i.seconds * nanosPerSecond) := by
  induction k with
  | zero => simp [nth?, after?]
  | succ k ih =>
    have hstep : ((k + 1 : Nat) + 1 : Int) * i.seconds * nanosPerSecond =
        (k + 1) * i.seconds * nanosPerSecond + i.seconds * nanosPerSecond := by
      rw [Int.natCast_succ, Int.add_mul ((k : Int) + 1) 1, Int.one_mul, Int.add_mul]
    have hsecond : 0 ≤ nanosPerSecond := by decide
    have hsteps : 0 ≤ ((k : Int) + 1) * i.seconds * nanosPerSecond :=
      Int.mul_nonneg (Int.mul_nonneg (by omega) (Int.natCast_nonneg _)) hsecond
    have hperiod : 0 ≤ (i.seconds : Int) * nanosPerSecond :=
      Int.mul_nonneg (Int.natCast_nonneg _) hsecond
    show ((Trigger.interval i).nth? since k).bind (fun x =>
      x.later? (i.seconds * nanosPerSecond)) = _
    rw [ih, hstep]
    generalize ((k : Int) + 1) * i.seconds * nanosPerSecond = steps at hsteps
    generalize (i.seconds : Int) * nanosPerSecond = period at hperiod
    cases hx : since.later? steps with
    | some x =>
      exact Instant.later?_later? hx period
    | none =>
      -- the calendar has ended before, so it does not have what is later still
      cases hy : since.later? (steps + period) with
      | none => rfl
      | some y =>
        obtain ⟨hnanos, hcalendar⟩ := Instant.later?_eq_some.1 hy
        have hearliest : Instant.earliest.nanos ≤ since.nanos := hsince
        have hfrom : Instant.earliest.nanos ≤ since.nanos + steps := by omega
        have hto : since.nanos + steps ≤ y.nanos := by omega
        have hsome := (Instant.later?_eq_some (t := since) (u := ⟨since.nanos + steps⟩)).2
          ⟨rfl, Instant.inCalendar_of_le hfrom hto hcalendar⟩
        rw [hx] at hsome
        cases hsome

/-- From a whole millisecond on all fire times are whole milliseconds. -/
theorem whole_of_after? (hsince : since.nanos % nanosPerMilli = 0) (hx : t.after? since = some x) :
    x.nanos % nanosPerMilli = 0 := by
  cases t with
  | interval i =>
    obtain ⟨hnanos, -⟩ := Instant.later?_eq_some.1 hx
    unfold nanosPerMilli nanosPerSecond at *
    omega
  | cron c =>
    obtain ⟨p, -, h⟩ := List.mem_filterMap.1 (CronTrigger.mem_of_earliest hx)
    obtain ⟨second, -, rfl⟩ := Option.map_eq_some_iff.1 h
    show second * nanosPerSecond % nanosPerMilli = 0
    unfold nanosPerMilli nanosPerSecond
    omega

/-- Fire times are whole milliseconds, from a whole millisecond on. -/
theorem nth?_whole (hsince : since.nanos % nanosPerMilli = 0) (hx : t.nth? since k = some x) :
    x.nanos % nanosPerMilli = 0 := by
  induction k generalizing x with
  | zero => exact whole_of_after? hsince hx
  | succ k ih =>
    obtain ⟨before, hbefore, hafter⟩ := Option.bind_eq_some_iff.1 hx
    exact whole_of_after? (ih hbefore) hafter

/-! ## Counting fire times -/

/-- The trigger yields an instant, from a moment on. -/
def Yields (t : Trigger) (since x : Instant) : Prop := ∃ k, t.nth? since k = some x

/-- The fire times of an interval are those whole periods after the moment that the calendar has. -/
theorem yields_interval {i : IntervalTrigger} (hsince : Instant.earliest ≤ since) :
    (Trigger.interval i).Yields since x ↔
    ∃ k : Nat, since.later? ((k + 1) * i.seconds * nanosPerSecond) = some x := by
  unfold Yields
  simp only [nth?_interval hsince]

/-- How often an instant is among the first fire times. -/
def among (t : Trigger) (since : Instant) (k : Nat) (x : Instant) : Nat :=
  (List.range k).countP (fun j => t.nth? since j = some x)

theorem among_succ (t : Trigger) (since : Instant) (k : Nat) (x : Instant) :
    t.among since (k + 1) x = t.among since k x + if t.nth? since k = some x then 1 else 0 := by
  unfold among
  rw [List.range_succ, List.countP_append, List.countP_singleton]
  simp

/-- An instant that is none of the first fire times is not among them. -/
theorem among_eq_zero (h : ∀ j < k, t.nth? since j ≠ some x) : t.among since k x = 0 := by
  refine List.countP_eq_zero.2 ?_
  intro j hj
  simpa using h j (List.mem_range.1 hj)

/-- A fire time is among the first ones once. -/
theorem among_eq_one (h : t.IsDeclared) (hjk : j < k) (hx : t.nth? since j = some x) :
    t.among since k x = 1 := by
  induction hjk with
  | refl =>
    -- fire times are in strict order, so it was not among those before
    have hbefore : t.among since j x = 0 := by
      refine among_eq_zero ?_
      intro i hij heq
      exact absurd (nth_lt_nth h hij heq hx) (Int.lt_irrefl _)
    rw [among_succ, hbefore, if_pos hx]
  | @step k hjk ih =>
    have hnot : t.nth? since k ≠ some x := by
      intro heq
      exact absurd (nth_lt_nth h hjk hx heq) (Int.lt_irrefl _)
    rw [among_succ, ih, if_neg hnot]

/-- No instant is among the first fire times twice. -/
theorem among_le_one (h : t.IsDeclared) (k : Nat) (x : Instant) : t.among since k x ≤ 1 := by
  by_cases hsome : ∃ j, j < k ∧ t.nth? since j = some x
  · obtain ⟨j, hjk, hj⟩ := hsome
    exact Nat.le_of_eq (among_eq_one h hjk hj)
  · rw [among_eq_zero fun j hjk hj => hsome ⟨j, hjk, hj⟩]
    omega

/-- An instant that is not yielded any more does not come to be among more fire times. -/
theorem among_le (hnot : ∀ j, k ≤ j → t.nth? since j ≠ some x) (j : Nat) :
    t.among since j x ≤ t.among since k x := by
  rcases Nat.le_total j k with hjk | hkj
  · exact List.Sublist.countP_le (List.range_sublist.2 hjk)
  · induction hkj with
    | refl => exact Nat.le_refl _
    | @step j hkj ih =>
      rw [among_succ, if_neg (hnot j hkj)]
      exact ih

/-- Up to the next fire time, or the end of them all, what is yielded is among those there were. -/
theorem among_eq_one_iff (h : t.IsDeclared)
    (hnext : ∀ y, t.nth? since k = some y → x.nanos < y.nanos) :
    (t.Yields since x → t.among since k x = 1) ∧ (¬ t.Yields since x → t.among since k x = 0) := by
  refine ⟨?_, ?_⟩
  · intro hyields
    obtain ⟨j, hj⟩ := hyields
    refine among_eq_one h ?_ hj
    by_contra hle
    have hle : k ≤ j := Nat.not_lt.1 hle
    -- a fire time from the next one on has not come yet
    cases hk : t.nth? since k with
    | none =>
      rw [nth?_none_mono hle hk] at hj
      cases hj
    | some y =>
      have hlt := hnext y hk
      rcases Nat.eq_or_lt_of_le hle with rfl | hlater
      · rw [hj, Option.some.injEq] at hk
        subst hk
        exact absurd hlt (Int.lt_irrefl _)
      · exact absurd (Int.lt_trans hlt (nth_lt_nth h hlater hk hj)) (Int.lt_irrefl _)
  · intro hnot
    exact among_eq_zero fun j _ hj => hnot ⟨j, hj⟩

end Trigger

end JobFleet.Schedule
