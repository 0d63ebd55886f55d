/-
  JobFleet.Proofs.Schedule.Ahead: triggers whose fire times have not passed.

  A driver that asks its trigger for the next fire time goes to sleep until then.  If the answer has
  not passed, all drivers that wait for one fire time wake at the same moment, whenever they asked.

  An interval always looks ahead.  A cron expression is searched by wall time, so it looks ahead
  where wall times come in order: where a time that clocks show once is not over when they show an
  earlier one.

  Main results:
    * `looksAhead_interval` — an interval looks ahead, whatever it fired last and whatever the clock
      shows.
    * `looksAhead_cron` — a cron expression looks ahead in an orderly zone.
-/
import JobFleet.Schedule.Trigger
import JobFleet.Proofs.Time.Calendar
import JobFleet.Proofs.Time.Orderly

namespace JobFleet

open JobFleet.Time

namespace Schedule

/-- No answer of the trigger has passed when it is given. -/
def Trigger.LooksAhead (t : Trigger) : Prop :=
  ∀ previous now next, t.next? previous now = some next → now ≤ next

namespace IntervalTrigger

/-- A period is positive. -/
theorem period_pos {i : IntervalTrigger} {period : Int}
    (h : i.period? = some period) : 0 < period := by
  unfold period? at h
  split at h
  · rename_i hbounds
    cases h
    have hseconds : (0 : Int) < i.seconds := Int.ofNat_lt.2 hbounds.1
    unfold nanosPerSecond
    omega
  · cases h

/-- Stepping over the periods that have passed leads beyond the instant. -/
theorem lt_add_mul_missed {period : Int} (hpos : 0 < period) (next now : Int) :
    now < next + period * ((now - next) / period + 1) := by
  have hstep := Int.lt_mul_ediv_self_add hpos (x := now - next)
  rw [Int.mul_add, Int.mul_one]
  omega

/-- An answer is an instant that a period has led to, not before now. -/
theorem now_le_of_next? {i : IntervalTrigger} {previous : Option Instant} {now next : Instant}
    (h : i.next? previous now = some next) : now ≤ next := by
  show now.nanos ≤ next.nanos
  unfold next? at h
  obtain ⟨period, hperiod, h⟩ := Option.bind_eq_some_iff.1 h
  have hpos := period_pos hperiod
  cases previous with
  | none =>
    have hnext := (Instant.later?_eq_some.1 h).1
    omega
  | some before =>
    obtain ⟨first, -, h⟩ := Option.bind_eq_some_iff.1 h
    split at h
    · rename_i hle
      cases h
      exact hle
    -- the period after the last answer has passed, so some are stepped over
    · simp only at h
      split at h
      · have hnext := (Instant.later?_eq_some.1 h).1
        have hbeyond := lt_add_mul_missed hpos first.nanos now.nanos
        omega
      · cases h

end IntervalTrigger

/-- Intervals look ahead. -/
theorem looksAhead_interval (i : IntervalTrigger) : (Trigger.interval i).LooksAhead :=
  fun _ _ _ h => IntervalTrigger.now_le_of_next? h

/-! ## Cron expressions -/

/-- A whole minute of a day is not before the time of a bound. -/
def Reaches (bound : WallTime) (hour minute : Nat) : Prop :=
  bound.hour < hour ∨ bound.hour = hour ∧
    (bound.minute < minute ∨ bound.minute = minute ∧ bound.second = 0)

namespace Pattern

variable {p : Pattern} {z : Zone} {bound : WallTime} {date : Date} {year second : Int}

/-- What is found on a date is a whole minute that clocks show once, and on the date of the bound
    not before it. -/
theorem exists_of_firstOn (h : p.firstOn z bound date = some second) : ∃ hour minute,
    z.once? (WallTime.mk date hour minute 0).seconds = some second ∧
    (date = bound.date → Reaches bound hour minute) := by
  obtain ⟨hour, -, h⟩ := List.exists_of_findSome?_eq_some h
  split at h
  · cases h
  · rename_i hhour
    obtain ⟨minute, -, h⟩ := List.exists_of_findSome?_eq_some h
    split at h
    · cases h
    · rename_i hminute
      refine ⟨hour, minute, h, ?_⟩
      intro hdate
      unfold Reaches
      simp only [hdate, true_and] at hhour hminute
      omega

/-- What is found in a year is on a date of it, not before that of the bound. -/
theorem exists_of_firstIn (hyear : bound.date.year ≤ year)
    (h : p.firstIn z bound year = some second) :
    ∃ date, 1 ≤ date.day ∧ date.year = year ∧ (bound.date.IsBefore date ∨ date = bound.date) ∧
      p.firstOn z bound date = some second := by
  obtain ⟨month, -, h⟩ := List.exists_of_findSome?_eq_some h
  split at h
  · cases h
  · rename_i hmonth
    obtain ⟨date, hdate, h⟩ := List.exists_of_findSome?_eq_some h
    obtain ⟨i, -, rfl⟩ := List.mem_map.1 (List.mem_filter.1 hdate).1
    split at h
    · cases h
    · rename_i hday
      refine ⟨_, Nat.le_add_left 1 i, rfl, ?_, h⟩
      unfold Date.IsBefore
      simp only at hday ⊢
      by_cases hlater : bound.date.year < year
      · exact .inl (.inl hlater)
      · have hsame : year = bound.date.year := by omega
        simp only [hsame, true_and] at hmonth hday
        by_cases hequal : month = bound.date.month ∧ i + 1 = bound.date.day
        · right
          rw [hsame, hequal.1, hequal.2]
        · exact .inl (.inr ⟨hsame.symm, by omega⟩)

/-- What is found from a bound on is a whole minute that clocks show once, not before the bound. -/
theorem exists_of_firstFrom (h : p.firstFrom z bound = some second) :
    ∃ date hour minute, 1 ≤ date.day ∧
    z.once? (WallTime.mk date hour minute 0).seconds = some second ∧
      (bound.date.IsBefore date ∨ date = bound.date ∧ Reaches bound hour minute) := by
  obtain ⟨year, hmem, h⟩ := List.exists_of_findSome?_eq_some h
  obtain ⟨i, -, rfl⟩ := List.mem_map.1 hmem
  obtain ⟨date, hday, hyear, hdate, h⟩ :=
    exists_of_firstIn (Int.le_add_of_nonneg_right (Int.natCast_nonneg i)) h
  obtain ⟨hour, minute, honce, htime⟩ := exists_of_firstOn h
  refine ⟨date, hour, minute, hday, honce, ?_⟩
  by_cases hfirst : bound.date.year < firstYear
  · -- the search begins in a later year
    have hclamped : (clampYear bound).date.year = firstYear :=
      Int.max_eq_right (Int.le_of_lt hfirst)
    rw [hclamped] at hyear
    exact .inl (.inl (by omega))
  · have hclamped : clampYear bound = bound := by
      unfold clampYear
      rw [Int.max_eq_left (Int.not_lt.1 hfirst)]
    rw [hclamped] at hdate htime
    exact hdate.imp_right (fun hsame => ⟨hsame, htime hsame⟩)

/-- By wall time nothing is found before the bound. -/
theorem le_of_firstFrom {start : Int} (h : p.firstFrom z (WallTime.ofSeconds start) = some second) :
    ∃ wall, start ≤ wall ∧ z.once? wall = some second := by
  obtain ⟨date, hour, minute, hday, honce, hreaches⟩ := exists_of_firstFrom h
  refine ⟨_, ?_, honce⟩
  have hnumber := Date.dayNumber_ofDayNumber (start / secondsPerDay)
  rcases hreaches with hbefore | ⟨rfl, htime⟩
  -- a later date is that of a later day, which begins after the start
  · have hless := Date.dayNumber_lt_of_isBefore
      (Date.isValid_ofDayNumber (start / secondsPerDay)) hday hbefore
    rw [hnumber] at hless
    show start ≤ date.dayNumber * secondsPerDay + (3600 * hour + 60 * minute + 0 : Nat)
    unfold secondsPerDay at *
    omega
  -- on the same date the times of day are compared
  · unfold Reaches WallTime.ofSeconds at htime
    unfold WallTime.seconds WallTime.ofSeconds
    simp only at htime ⊢
    rw [hnumber]
    unfold secondsPerDay at *
    omega

end Pattern

namespace CronTrigger

theorem min_eq_or (a b : Instant) : min a b = a ∨ min a b = b := by
  show (if a ≤ b then a else b) = a ∨ (if a ≤ b then a else b) = b
  split
  · exact .inl rfl
  · exact .inr rfl

theorem foldl_min_mem (rest : List Instant) :
    ∀ first : Instant, rest.foldl min first ∈ first :: rest := by
  induction rest with
  | nil => exact fun first => List.mem_cons_self
  | cons second rest ih =>
    intro first
    rw [List.foldl_cons]
    rcases List.mem_cons.1 (ih (min first second)) with hsame | hlater
    · rw [hsame]
      rcases min_eq_or first second with hmin | hmin
      · rw [hmin]
        exact List.mem_cons_self
      · rw [hmin]
        exact List.mem_cons_of_mem _ List.mem_cons_self
    · exact List.mem_cons_of_mem _ (List.mem_cons_of_mem _ hlater)

/-- The earliest of some instants is one of them. -/
theorem mem_of_earliest {instants : List Instant} {t : Instant} (h : earliest instants = some t) :
    t ∈ instants := by
  cases instants with
  | nil => cases h
  | cons first rest =>
    cases h
    exact foldl_min_mem rest first

/-- In an orderly zone the next fire time is after the reference. -/
theorem lt_of_nextAfter? {c : CronTrigger} {reference next : Instant} (hzone : c.zone.Orderly)
    (h : c.nextAfter? reference = some next) : reference.nanos < next.nanos := by
  obtain ⟨p, -, h⟩ := List.mem_filterMap.1 (mem_of_earliest h)
  obtain ⟨second, hfirst, rfl⟩ := Option.map_eq_some_iff.1 h
  obtain ⟨wall, hle, honce⟩ := Pattern.le_of_firstFrom hfirst
  have hsecond : (reference.nanos + nanosPerSecond) / nanosPerSecond ≤ second :=
    hzone wall second _ honce hle
  show reference.nanos < second * nanosPerSecond
  unfold nanosPerSecond at *
  omega

end CronTrigger

/-- Cron expressions look ahead in orderly zones. -/
theorem looksAhead_cron {c : CronTrigger} (hzone : c.zone.Orderly) :
    (Trigger.cron c).LooksAhead := by
  intro previous now next h
  have hlt := CronTrigger.lt_of_nextAfter? hzone h
  show now.nanos ≤ next.nanos
  cases previous with
  | none => exact Int.le_of_lt hlt
  | some before =>
    have hmax : now.nanos ≤ (max before now).nanos := by
      show now.nanos ≤ (if before ≤ now then now else before).nanos
      split
      · exact Int.le_refl _
      · rename_i hnot
        exact Int.le_of_lt (Int.not_le.1 hnot)
    exact Int.le_trans hmax (Int.le_of_lt hlt)

/-! ## Schedules -/

theorem ok_of_bind {ε α β : Type} {x : Except ε α} {f : α → Except ε β} {b : β}
    (h : x >>= f = .ok b) :
    ∃ a, f a = .ok b := by
  cases x with
  | error e => cases h
  | ok a => exact ⟨a, h⟩

theorem CronTrigger.zone_of_parse {expression : String} {zone : Zone} {c : CronTrigger}
    (h : CronTrigger.parse expression zone = .ok c) : c.zone = zone := by
  unfold CronTrigger.parse at h
  split at h
  -- the five fields are read one after the other
  · obtain ⟨_, h⟩ := ok_of_bind h
    obtain ⟨_, h⟩ := ok_of_bind h
    obtain ⟨_, h⟩ := ok_of_bind h
    obtain ⟨_, h⟩ := ok_of_bind h
    obtain ⟨_, h⟩ := ok_of_bind h
    -- then the engine is asked for the patterns
    obtain ⟨_, h⟩ := ok_of_bind h
    cases h
    rfl
  · cases h

end Schedule

end JobFleet
