/-
  JobFleet.Proofs.Schedule.CatchUp: where an interval goes on after it was late.

  An interval that fired last at some instant has its slots whole periods after it.  Asked in time
  it answers the first of them; asked late it steps over those that have passed and answers the
  first that has not.  `slot` is the number of periods to the answer, and `next?_eq_some_iff` says
  all there is to an answer: which slot it is, that the calendar has it, and that the number of
  slots stepped over fits 32 bits.

  The count is made with machine words: spans of time are brought to whole milliseconds before they
  are divided.  `nextOnWords` is that calculation step by step, with a fault where a word does not
  hold a result.

  Main results:
    * `slot_least` — the slot answered is the first that has not passed.
    * `nextOnWords_eq` — on words the calculation never faults, and rounding to milliseconds does
      not change the answer.
    * `lands_on_slot` — what is answered, and when nothing is.
    * `answers_unless_far_behind` — an interval gives up inside the calendar if and only if it is
      2^31 periods behind.
-/
import JobFleet.Proofs.Schedule.Cadence
import JobFleet.Proofs.Word.Checked

namespace JobFleet.Schedule

open JobFleet.Text JobFleet.Time JobFleet.Word

/-! ## The calendar in numbers -/

/-- The nanoseconds of the calendar. -/
theorem bounds_of_inCalendar {t : Instant} (h : t.inCalendar = true) :
    -8334601228800000000000 ≤ t.nanos ∧ t.nanos < 8210266876800000000000 := by
  obtain ⟨hlow, hhigh⟩ := of_decide_eq_true h
  have hearliest : Instant.earliest.nanos = -8334601228800000000000 := by decide
  have hlatest : Instant.latest.nanos = 8210266876800000000000 - 1 := by decide
  change Instant.earliest.nanos ≤ t.nanos at hlow
  change t.nanos ≤ Instant.latest.nanos at hhigh
  omega

namespace IntervalTrigger

variable {i : IntervalTrigger} {period : Int} {before now next : Instant}

/-! ## Slots -/

/-- A period is the seconds of the interval, of which there is one at least. -/
theorem period?_eq (h : i.period? = some period) :
    period = i.seconds * nanosPerSecond ∧ 0 < i.seconds ∧ i.seconds ≤ longestPeriod := by
  unfold period? at h
  split at h
  · rename_i hbounds
    exact ⟨(Option.some.inj h).symm, hbounds⟩
  · cases h

/-- A period is a positive number of seconds whose milliseconds fit a word. -/
theorem period?_eq_none_iff :
    i.period? = none ↔ i.seconds = 0 ∨ wordSize 63 ≤ i.seconds * 1000 := by
  have hlongest : longestPeriod = (9223372036854775808 - 1) / 1000 := rfl
  have hword : wordSize 63 = 9223372036854775808 := rfl
  unfold period?
  rw [ite_eq_right_iff]
  simp only [reduceCtorEq, imp_false]
  omega

/-- The number of periods from the last fire time to the next one, asked for at `now`. -/
def slot (period : Int) (before now : Instant) : Int :=
  if now.nanos ≤ before.nanos + period then 1 else (now.nanos - before.nanos) / period + 1

/-- The next slot is one period off at least. -/
theorem one_le_slot (hpos : 0 < period) : 1 ≤ slot period before now := by
  unfold slot
  split
  · exact Int.le_refl 1
  · have hquotient : 0 ≤ (now.nanos - before.nanos) / period :=
      Int.ediv_nonneg (by omega) (Int.le_of_lt hpos)
    omega

/-- The slot of an interval that is late has not passed. -/
theorem lt_slot (hpos : 0 < period) (hlate : before.nanos + period < now.nanos) :
    now.nanos < before.nanos + slot period before now * period := by
  unfold slot
  rw [if_neg (Int.not_le.2 hlate), Int.mul_comm]
  exact lt_add_mul_missed hpos before.nanos now.nanos

/-- The slot of an interval that is late is the first that has not passed. -/
theorem slot_least (hpos : 0 < period) (hlate : before.nanos + period < now.nanos) {k : Int}
    (hk : now.nanos < before.nanos + k * period) : slot period before now ≤ k := by
  unfold slot
  rw [if_neg (Int.not_le.2 hlate)]
  have hquotient : (now.nanos - before.nanos) / period < k := Int.ediv_lt_of_lt_mul hpos (by omega)
  omega

/-- From the second slot on, one has not passed if and only if the slot answered is not after it. -/
theorem slot_le_iff {n : Int} (hpos : 0 < period) (hn : 2 ≤ n) :
    slot period before now ≤ n ↔ now.nanos < before.nanos + n * period := by
  have hdouble := Int.mul_le_mul_of_nonneg_right hn (Int.le_of_lt hpos)
  unfold slot
  split
  · omega
  · have hquotient := Int.ediv_lt_iff_lt_mul (a := now.nanos - before.nanos) (b := n) hpos
    omega

/-- A slot is at most one period ahead, unless the last fire time is ahead itself. -/
theorem slot_le (hpos : 0 < period) (hpast : before.nanos ≤ now.nanos) :
    before.nanos + slot period before now * period ≤ now.nanos + period := by
  unfold slot
  split
  · omega
  · have hpassed := Int.mul_ediv_self_le (x := now.nanos - before.nanos) (Int.ne_of_gt hpos)
    rw [Int.add_mul, Int.mul_comm]
    omega

/-- The slots stepped over, counted from the first one, and the first one make up the number of
    periods. -/
theorem slot_eq_missed (hpos : 0 < period) (hlate : before.nanos + period < now.nanos) :
    slot period before now = (now.nanos - (before.nanos + period)) / period + 1 + 1 := by
  have hless : now.nanos - (before.nanos + period) =
      now.nanos - before.nanos + -1 * period := by omega
  unfold slot
  rw [if_neg (Int.not_le.2 hlate), hless, Int.add_mul_ediv_right _ _ (Int.ne_of_gt hpos)]
  omega

/-- All there is to an answer. -/
theorem next?_eq_some_iff (hperiod : i.period? = some period) :
    i.next? (some before) now = some next ↔
    (before.later? period).isSome ∧ slot period before now ≤ wordSize 31 ∧
      before.later? (slot period before now * period) = some next := by
  have hpos := period_pos hperiod
  have hmost : mostSkipped = 2147483648 - 1 := rfl
  have hword : ((wordSize 31 : Nat) : Int) = 2147483648 := rfl
  unfold next?
  rw [hperiod]
  show (before.later? period).bind _ = some next ↔ _
  cases hfirst : before.later? period with
  | none => simp
  | some first =>
    obtain ⟨hnanos, -⟩ := Instant.later?_eq_some.1 hfirst
    show (if now.nanos ≤ first.nanos then _ else _) = some next ↔ _
    rw [hnanos]
    by_cases hle : now.nanos ≤ before.nanos + period
    · have hslot : slot period before now = 1 := if_pos hle
      rw [if_pos hle, hslot, Int.one_mul, hfirst]
      simp
    · -- the slots stepped over are counted from the first one
      have hslot := slot_eq_missed hpos (Int.not_le.1 hle)
      rw [if_neg hle, hslot]
      generalize (now.nanos - (before.nanos + period)) / period = missed
      have hsame : first.later? (period * (missed + 1)) =
          before.later? ((missed + 1 + 1) * period) := by
        rw [Instant.later?_later? hfirst, Int.add_mul (missed + 1) 1, Int.one_mul,
          Int.mul_comm period, Int.add_comm]
      show (if missed + 1 ≤ mostSkipped then first.later? (period * (missed + 1))
        else none) = some next ↔ _
      rw [hsame]
      split
      · rename_i hfew
        simp only [Option.isSome_some, true_and]
        exact ⟨fun h => ⟨by omega, h⟩, fun h => h.2⟩
      · rename_i hmany
        simp only [reduceCtorEq, false_iff]
        rintro ⟨-, hfew, -⟩
        omega

/-! ## The calculation on words -/

/-- The time from one instant to another.  A span is held if its milliseconds fit a word. -/
def spanOnWords (start stop : Instant) : Except Fault Int :=
  (hold ((stop.nanos - start.nanos).tdiv nanosPerMilli)).map (fun _ => stop.nanos - start.nanos)

/-- The milliseconds of a span: those of its whole seconds and those of the rest. -/
def millisOnWords (span : Int) : Except Fault Int := do
  let whole ← mul (span.tdiv nanosPerSecond) 1000
  add whole ((span.tmod nanosPerSecond).tdiv nanosPerMilli)

/-- A span a number of times, if its seconds fit a word. -/
def timesOnWords? (span count : Int) : Option Int :=
  if Fits 64 (span * count / nanosPerSecond) then some (span * count) else none

/-- One more than the number of periods in a span: a quotient of milliseconds. -/
def missedOnWords (period late : Int) : Except Fault Int := do
  let lateMillis ← millisOnWords late
  let periodMillis ← millisOnWords period
  let passed ← div lateMillis periodMillis
  add passed 1

/-- The slot after those that have passed since `next`: their number is narrowed to 32 bits before
    the period is taken that many times. -/
def catchUpOnWords (period : Int) (next now : Instant) : Except Fault (Option Instant) := do
  let late ← spanOnWords next now
  let missed ← missedOnWords period late
  return (narrow? 32 missed).bind (fun count => (timesOnWords? period count).bind next.later?)

/-- The next fire time, calculated on words. -/
def nextOnWords (i : IntervalTrigger) (previous : Option Instant) (now : Instant) :
    Except Fault (Option Instant) :=
  match i.period?, previous with
  | none, _ => .ok none
  | some period, none => .ok (now.later? period)
  | some period, some before =>
    match before.later? period with
    | none => .ok none
    | some next => if now ≤ next then .ok (some next) else catchUpOnWords period next now

/-- The milliseconds of a span that fit a word are calculated without a fault. -/
theorem millisOnWords_eq {span : Int} (hspan : 0 ≤ span) (hfits : Fits 64 (span / nanosPerMilli)) :
    millisOnWords span = .ok (span / nanosPerMilli) := by
  rw [fits_word] at hfits
  have hseconds : span.tdiv nanosPerSecond = span / nanosPerSecond :=
    Int.tdiv_eq_ediv_of_nonneg hspan
  have hrest : (span.tmod nanosPerSecond).tdiv nanosPerMilli =
      span % nanosPerSecond / nanosPerMilli := by
    rw [Int.tmod_eq_emod_of_nonneg hspan,
      Int.tdiv_eq_ediv_of_nonneg (Int.emod_nonneg _ (by decide))]
  have hsum : span / nanosPerSecond * 1000 + span % nanosPerSecond / nanosPerMilli = span /
      nanosPerMilli := by
    unfold nanosPerSecond nanosPerMilli
    omega
  have hwhole : Fits 64 (span / nanosPerSecond * 1000) := by
    rw [fits_word]
    unfold nanosPerSecond nanosPerMilli at *
    omega
  unfold millisOnWords
  rw [hseconds, hrest, mul_eq hwhole]
  show add (span / nanosPerSecond * 1000) (span % nanosPerSecond / nanosPerMilli) = _
  rw [add_eq (by rw [hsum, fits_word]; exact hfits), hsum]

/-- The span between two instants that are not too far apart is calculated without a fault. -/
theorem spanOnWords_eq {start stop : Instant} (hle : start.nanos ≤ stop.nanos)
    (hfits : Fits 64 ((stop.nanos - start.nanos) / nanosPerMilli)) :
    spanOnWords start stop = .ok (stop.nanos - start.nanos) := by
  unfold spanOnWords
  rw [Int.tdiv_eq_ediv_of_nonneg (by omega), hold_eq hfits]
  rfl

/-- A period is a whole number of milliseconds, so those of a span hold it as often as the span
    does. -/
theorem div_millis {seconds : Nat} (span : Int) :
    span / nanosPerMilli / (seconds * nanosPerSecond / nanosPerMilli) =
      span / (seconds * nanosPerSecond) := by
  have hmillis : (seconds : Int) * nanosPerSecond / nanosPerMilli = seconds * 1000 := by
    unfold nanosPerSecond nanosPerMilli
    omega
  have hperiod : (seconds : Int) * nanosPerSecond = nanosPerMilli * (seconds * 1000) := by
    unfold nanosPerSecond nanosPerMilli
    omega
  rw [hmillis, hperiod, Int.ediv_ediv_of_nonneg (by decide)]

/-- The number of periods that were missed is calculated without a fault, and rounding to
    milliseconds does not change it. -/
theorem missedOnWords_eq {late : Int} (hperiod : i.period? = some period) (hlate : 0 ≤ late)
    (hbound : late / nanosPerMilli < wordSize 62) :
    missedOnWords period late = .ok (late / period + 1) := by
  have hpos := period_pos hperiod
  obtain ⟨rfl, hsecond, hlongest⟩ := period?_eq hperiod
  have hword : longestPeriod = 9223372036854775 := rfl
  have hquarter : ((wordSize 62 : Nat) : Int) = 4611686018427387904 := rfl
  rw [hquarter] at hbound
  rw [hword] at hlongest
  have hlateNonneg : 0 ≤ late / nanosPerMilli := Int.ediv_nonneg hlate (by decide)
  have hlateFits : Fits 64 (late / nanosPerMilli) := by
    rw [fits_word]
    omega
  have hperiodBounds : 0 < (i.seconds : Int) * nanosPerSecond / nanosPerMilli ∧
      Fits 64 (i.seconds * nanosPerSecond / nanosPerMilli) := by
    rw [fits_word]
    unfold nanosPerSecond nanosPerMilli
    omega
  have hdiv := div_eq hlateNonneg hperiodBounds.1 hlateFits
  have hpassedLe := Int.ediv_le_self (i.seconds * nanosPerSecond / nanosPerMilli) hlateNonneg
  rw [div_millis] at hdiv hpassedLe
  have hpassedNonneg : 0 ≤ late / (i.seconds * nanosPerSecond) :=
    Int.ediv_nonneg hlate (Int.le_of_lt hpos)
  have hadd : add (late / (i.seconds * nanosPerSecond)) 1 =
      .ok (late / (i.seconds * nanosPerSecond) + 1) := by
    refine add_eq ?_
    rw [fits_word]
    omega
  have hlateMillis := millisOnWords_eq hlate hlateFits
  have hperiodMillis := millisOnWords_eq (Int.le_of_lt hpos) hperiodBounds.2
  unfold missedOnWords
  rw [then_eq hlateMillis, then_eq hperiodMillis, then_eq hdiv, hadd]

/-- Stepping over the periods of a span and one more leads no further than the span and one
    period. -/
theorem timesOnWords?_eq {late : Int} (hperiod : i.period? = some period) (hlate : 0 ≤ late)
    (hbound : late / nanosPerMilli < wordSize 62) :
    timesOnWords? period (late / period + 1) = some (period * (late / period + 1)) := by
  have hpos := period_pos hperiod
  obtain ⟨hseconds, -, hlongest⟩ := period?_eq hperiod
  have hword : longestPeriod = 9223372036854775 := rfl
  have hquarter : ((wordSize 62 : Nat) : Int) = 4611686018427387904 := rfl
  rw [hquarter] at hbound
  rw [hword] at hlongest
  have hproduct := Int.mul_ediv_self_le (x := late) (Int.ne_of_gt hpos)
  have hnonneg : 0 ≤ period * (late / period) :=
    Int.mul_nonneg (Int.le_of_lt hpos) (Int.ediv_nonneg hlate (Int.le_of_lt hpos))
  refine if_pos ?_
  rw [fits_word, Int.mul_add, Int.mul_one]
  unfold nanosPerSecond nanosPerMilli at *
  omega

/-- Catching up never faults: the calendar is short enough for words of milliseconds. -/
theorem catchUpOnWords_eq (hperiod : i.period? = some period) (hnext : next.inCalendar = true)
    (hnow : now.inCalendar = true) (hlate : next.nanos < now.nanos) :
    catchUpOnWords period next now =
      .ok (if (now.nanos - next.nanos) / period + 1 ≤ mostSkipped
        then next.later? (period * ((now.nanos - next.nanos) / period + 1)) else none) := by
  have hnextBounds := bounds_of_inCalendar hnext
  have hnowBounds := bounds_of_inCalendar hnow
  have hpos := period_pos hperiod
  have hnonneg : 0 ≤ now.nanos - next.nanos := by omega
  have hbound : (now.nanos - next.nanos) / nanosPerMilli < wordSize 62 := by
    have hquarter : ((wordSize 62 : Nat) : Int) = 4611686018427387904 := rfl
    unfold nanosPerMilli
    omega
  have hfits : Fits 64 ((now.nanos - next.nanos) / nanosPerMilli) := by
    rw [fits_word]
    unfold nanosPerMilli
    omega
  have hmissed : 0 ≤ (now.nanos - next.nanos) / period :=
    Int.ediv_nonneg hnonneg (Int.le_of_lt hpos)
  have htimes := timesOnWords?_eq hperiod hnonneg hbound
  have hspan := spanOnWords_eq (Int.le_of_lt hlate) hfits
  have hcount := missedOnWords_eq hperiod hnonneg hbound
  unfold catchUpOnWords
  rw [then_eq hspan, then_eq hcount]
  generalize (now.nanos - next.nanos) / period = passed at hmissed htimes
  -- a positive number fits 32 bits if it is not too large
  have hnarrow : narrow? 32 (passed + 1) = if passed + 1 ≤ mostSkipped then
      some (passed + 1) else none := by
    have hmost : mostSkipped = 2147483648 - 1 := rfl
    unfold narrow?
    refine if_congr ?_ rfl rfl
    rw [fits_half]
    omega
  rw [hnarrow]
  split
  · exact congrArg (fun skipped => Except.ok (Option.bind skipped next.later?)) htimes
  · rfl

/-- On words the calculation never faults, and it gives the next fire time. -/
theorem nextOnWords_eq (i : IntervalTrigger) (previous : Option Instant)
    (hnow : now.inCalendar = true) :
    i.nextOnWords previous now = .ok (i.next? previous now) := by
  unfold nextOnWords next?
  cases hperiod : i.period? with
  | none => rfl
  | some period =>
    cases previous with
    | none => rfl
    | some before =>
      cases hfirst : before.later? period with
      | none => simp [hfirst]
      | some first =>
        obtain ⟨-, hin⟩ := Instant.later?_eq_some.1 hfirst
        simp only [hfirst, Option.bind_eq_bind, Option.bind_some]
        split
        · rfl
        · rename_i hlate
          exact catchUpOnWords_eq hperiod hin hnow (Int.not_le.1 hlate)

/-! ## Landing on a slot -/

/-- **A late interval goes on at the next slot of its cadence.**  The first fire time is one period
ahead.  After that, an interval that is asked in time fires a period after it fired last, and one
that is late at the first slot that has not passed.  So it never fires in the past or twice at one
instant, and at most one period ahead unless the clock was set back behind the last fire time.  A
period that is zero, or whose milliseconds do not fit a word, never fires.  On words the calculation
neither overflows nor divides by zero, at any reading of a clock. -/
theorem lands_on_slot (i : IntervalTrigger) :
    (∀ now next, i.next? none now = some next →
      next.nanos = now.nanos + i.seconds * nanosPerSecond) ∧
      (∀ before now next, i.next? (some before) now = some next →
        ∃ k : Nat, next.nanos = before.nanos + k * (i.seconds * nanosPerSecond) ∧
          (now.nanos ≤ before.nanos + i.seconds * nanosPerSecond → k = 1) ∧
          (before.nanos + i.seconds * nanosPerSecond < now.nanos →
            now.nanos < before.nanos + k * (i.seconds * nanosPerSecond) ∧
              ∀ j : Nat, now.nanos < before.nanos + j * (i.seconds * nanosPerSecond) → k ≤ j) ∧
          before < next ∧ now ≤ next ∧
          (before ≤ now → next.nanos ≤ now.nanos + i.seconds * nanosPerSecond)) ∧
      (i.seconds = 0 ∨ wordSize 63 ≤ i.seconds * 1000 →
        ∀ previous now, i.next? previous now = none) ∧
      ∀ (previous : Option Instant) (now : Instant), now.inCalendar = true →
        i.nextOnWords previous now = .ok (i.next? previous now) := by
  refine ⟨?_, ?_, ?_, fun previous now hnow => nextOnWords_eq i previous hnow⟩
  · intro now next h
    obtain ⟨period, hperiod, h⟩ := Option.bind_eq_some_iff.1 h
    rw [← (period?_eq hperiod).1]
    exact (Instant.later?_eq_some.1 h).1
  · intro before now next h
    obtain ⟨period, hperiod, -⟩ := Option.bind_eq_some_iff.1 h
    have hpos := period_pos hperiod
    -- the answer is `slot` periods after the last fire time
    obtain ⟨-, -, hlater⟩ := (next?_eq_some_iff hperiod).1 h
    obtain ⟨hnanos, -⟩ := Instant.later?_eq_some.1 hlater
    have hone : 1 ≤ slot period before now := one_le_slot hpos
    -- there is one at least, so as a number it is the same
    have hk : (((slot period before now).toNat : Nat) : Int) = slot period before now :=
      Int.toNat_of_nonneg (by omega)
    have hstep := Int.mul_le_mul_of_nonneg_right hone (Int.le_of_lt hpos)
    rw [← (period?_eq hperiod).1]
    refine ⟨(slot period before now).toNat, by rw [hk, hnanos], ?_, ?_, ?_, now_le_of_next? h, ?_⟩
    · intro hle
      have hslot : slot period before now = 1 := if_pos hle
      rw [hslot]
      rfl
    · intro hlate
      rw [hk]
      refine ⟨lt_slot hpos hlate, ?_⟩
      intro j hj
      -- any other slot that has not passed comes later
      have hleast := slot_least hpos hlate hj
      omega
    · show before.nanos < next.nanos
      omega
    · intro hpast
      rw [hnanos]
      exact slot_le hpos hpast
  · intro hnever previous now
    have hnone := period?_eq_none_iff.2 hnever
    unfold next?
    rw [hnone]
    rfl

/-- An interval of a minute. -/
def minute : IntervalTrigger := ⟨60⟩

/-- A midnight at which it fired. -/
def midnight : Instant := .ofSeconds 1715299200

/-- Two and a half minutes and a nanosecond later. -/
def wellPastMidnight : Instant := ⟨1715299350000000001⟩

/-- The interval steps over two minutes and fires at the third, on words too; a period of zero does
    not fire. -/
theorem lands_on_slot_stepping_over :
    minute.next? (some midnight) wellPastMidnight = some (.ofSeconds 1715299380) ∧
      (∀ j : Nat, wellPastMidnight.nanos < midnight.nanos + j * (minute.seconds * nanosPerSecond) →
        3 ≤ j) ∧
      minute.nextOnWords (some midnight) wellPastMidnight = .ok (some (.ofSeconds 1715299380)) ∧
      (⟨0⟩ : IntervalTrigger).next? (some midnight) wellPastMidnight = none := by
  have hanswer : minute.next? (some midnight) wellPastMidnight =
      some (.ofSeconds 1715299380) := by decide
  have hlate : midnight.nanos + minute.seconds * nanosPerSecond <
      wellPastMidnight.nanos := by decide
  obtain ⟨-, hslot, -, hwords⟩ := lands_on_slot minute
  obtain ⟨k, hk, -, hleast, -⟩ := hslot _ _ _ hanswer
  obtain ⟨-, hleast⟩ := hleast hlate
  have hthree : k = 3 := by
    simp only [Instant.ofSeconds, midnight, minute, nanosPerSecond] at hk
    omega
  subst hthree
  refine ⟨hanswer, hleast, ?_, (lands_on_slot ⟨0⟩).2.2.1 (.inl rfl) _ _⟩
  rw [hwords _ _ (by decide), hanswer]

end IntervalTrigger

/-! ## Giving up -/

namespace Trigger

variable {job : String} {schedule : JobFleet.Schedule} {zone : Zone}
    {i : IntervalTrigger} {period : Int}
  {before now : Instant}

/-- The later of the last fire time, if there is one, and now. -/
def reference (previous : Option Instant) (now : Instant) : Instant :=
  match previous with
  | some before => max before now
  | none => now

/-- An interval that was built from a schedule has a period. -/
theorem isDeclared_of_built (h : Trigger.ofSchedule job schedule zone = .ok (.interval i)) :
    (Trigger.interval i).IsDeclared := by
  unfold Trigger.ofSchedule at h
  split at h
  · -- a cron expression gives another trigger
    cases hparse : CronTrigger.parse _ zone <;> rw [hparse] at h <;> cases h
  · split at h
    · rename_i hbounds
      cases h
      exact hbounds
    · cases h
  · cases h
  · cases h

theorem nanos_reference : (reference (some before) now).nanos = max before.nanos now.nanos := by
  show (if before.nanos ≤ now.nanos then now else before).nanos = _
  split <;> omega

/-- No slot is more than a period after both the last fire time and now. -/
theorem slot_le_reference (hpos : 0 < period) :
    before.nanos + IntervalTrigger.slot period before now * period ≤
      (reference (some before) now).nanos + period := by
  rw [nanos_reference]
  by_cases hpast : before.nanos ≤ now.nanos
  · have hslot := IntervalTrigger.slot_le hpos hpast
    omega
  · have hone : IntervalTrigger.slot period before now = 1 := if_pos (by omega)
    rw [hone]
    omega

/-- **An interval answers while the calendar has room, unless it is far behind.**  If a period after
the last fire time and after now lies in the calendar, then the trigger of a declared interval has a
next fire time if and only if fewer than 2^31 periods have passed since it fired last. -/
theorem answers_unless_far_behind
    (hbuilt : Trigger.ofSchedule job schedule zone = .ok (.interval i)) (previous : Option Instant)
    (now : Instant) (hprevious : ∀ before, previous = some before → before.inCalendar = true)
    (hroom : ((reference previous now).later? (i.seconds * nanosPerSecond)).isSome) :
    ((Trigger.interval i).next? previous now).isSome ↔
      ∀ before, previous = some before →
      now.nanos < before.nanos + wordSize 31 * (i.seconds * nanosPerSecond) := by
  have hperiod := period?_of_isDeclared (isDeclared_of_built hbuilt)
  have hpos := IntervalTrigger.period_pos hperiod
  show (i.next? previous now).isSome ↔ _
  cases previous with
  | none =>
    have hfirst : i.next? none now = now.later? (i.seconds * nanosPerSecond) := by
      unfold IntervalTrigger.next?
      rw [hperiod]
      rfl
    rw [hfirst]
    exact iff_of_true hroom (fun before h => nomatch h)
  | some before =>
    generalize (i.seconds : Int) * nanosPerSecond = period at hperiod hpos hroom ⊢
    have hbefore := hprevious before rfl
    obtain ⟨last, hlast⟩ := Option.isSome_iff_exists.1 hroom
    obtain ⟨hnanos, hin⟩ := Instant.later?_eq_some.1 hlast
    -- what lies between the last fire time and the room there is
    have hlater : ∀ steps : Int, 0 ≤ steps → before.nanos + steps ≤ last.nanos →
        before.later? steps = some ⟨before.nanos + steps⟩ := by
      intro steps hsteps hle
      have hfrom : Instant.earliest.nanos ≤ before.nanos := (of_decide_eq_true hbefore).1
      have hto : Instant.earliest.nanos ≤ before.nanos + steps := by omega
      exact Instant.later?_eq_some.2 ⟨rfl, Instant.inCalendar_of_le hto hle hin⟩
    have hslot : before.nanos + IntervalTrigger.slot period before now * period ≤
        (reference (some before) now).nanos + period := slot_le_reference hpos
    have hone : 1 ≤ IntervalTrigger.slot period before now := IntervalTrigger.one_le_slot hpos
    have hstep := Int.mul_le_mul_of_nonneg_right hone (Int.le_of_lt hpos)
    rw [Int.one_mul] at hstep
    have hfirst := hlater period (by omega) (by omega)
    have hanswer := hlater (IntervalTrigger.slot period before now * period) (by omega) (by omega)
    have hfew : IntervalTrigger.slot period before now ≤ wordSize 31 ↔
        now.nanos < before.nanos + wordSize 31 * period :=
        IntervalTrigger.slot_le_iff hpos (by decide)
    rw [Option.isSome_iff_exists]
    simp only [IntervalTrigger.next?_eq_some_iff hperiod, hfirst, hanswer,
      Option.isSome_some, true_and, hfew, Option.some.injEq, forall_eq', exists_and_left,
      exists_eq', and_true]

/-- An interval of a second. -/
def secondly : Trigger := .interval ⟨1⟩

/-- A second fires on up to the last of 2^31 seconds. -/
theorem answers_unless_far_behind_secondly :
    Trigger.ofSchedule "tick" (.every 1) .utc = .ok secondly ∧
      (secondly.next? (some (.ofSeconds 0)) ⟨2147483648 * nanosPerSecond - 1⟩).isSome ∧
      ¬(secondly.next? (some (.ofSeconds 0)) (.ofSeconds 2147483648)).isSome := by
  have hbuilt : Trigger.ofSchedule "tick" (.every 1) .utc = .ok (.interval ⟨1⟩) := rfl
  have hin : ∀ before : Instant, some (Instant.ofSeconds 0) = some before →
      before.inCalendar = true := by
    intro before h
    cases h
    decide
  have hlast := answers_unless_far_behind hbuilt (some (.ofSeconds 0)) ⟨2147483648 *
    nanosPerSecond - 1⟩ hin (by decide)
  have hbeyond := answers_unless_far_behind hbuilt (some (.ofSeconds 0))
    (.ofSeconds 2147483648) hin (by decide)
  refine ⟨hbuilt, hlast.2 ?_, fun h => ?_⟩
  · intro before h
    cases h
    decide
  · exact absurd (hbeyond.1 h _ rfl) (by decide)

/-- A clock that starts at the epoch and is set to a moment 2^31 seconds later: the calendar has the
    next second, and yet there is no next fire time. -/
theorem gives_up_in_calendar :
    Trigger.ofSchedule "tick" (.every 1) .utc = .ok secondly ∧
      (Instant.ofSeconds 0).inCalendar = true ∧
      (Instant.ofSeconds 2147483648).inCalendar = true ∧
      (reference (some (.ofSeconds 0)) (.ofSeconds 2147483648)).later? nanosPerSecond =
        some (.ofSeconds 2147483649) ∧
      secondly.next? (some (.ofSeconds 0)) (.ofSeconds 2147483648) = none :=
  ⟨rfl, by decide, by decide, by decide, by decide⟩

end Trigger

end JobFleet.Schedule
