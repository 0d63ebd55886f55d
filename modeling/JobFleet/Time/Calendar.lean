/-
  JobFleet.Time.Calendar: the proleptic Gregorian calendar as a numbering of days.

  `Date.dayNumber` counts the days since 1970-01-01, `Date.ofDayNumber` goes back, `Date.weekday`
  follows the seven-day cycle.  `daysBeforeYear_yearOf` says that `yearOf` finds the year a day lies
  in: the estimate from the mean length of a year is at most one year off.
-/

namespace JobFleet.Time

/-! ## Years and months -/

/-- Every fourth year has 366 days, except the centuries that 400 does not divide. -/
def isLeap (year : Int) : Bool := year % 4 == 0 && (year % 100 != 0 || year % 400 == 0)

/-- The number of days of a month, counted from 1 for January. -/
def monthLength (year : Int) : Nat → Nat
  | 2 => if isLeap year then 29 else 28
  | 4 => 30
  | 6 => 30
  | 9 => 30
  | 11 => 30
  | _ => 31

/-- The lengths of the twelve months of a year. -/
def monthLengths (year : Int) : List Nat := (List.range 12).map (fun m => monthLength year (m + 1))

/-- The days from the first day of year 1 to the first day of `year`. -/
def daysBeforeYear (year : Int) : Int :=
  let y := year - 1
  365 * y + y / 4 - y / 100 + y / 400

/-- The days of a year before the first day of `month`. -/
def daysBeforeMonth (year : Int) (month : Nat) : Nat :=
  ((monthLengths year).take (month - 1)).foldl (· + ·) 0

/-- The days from the first day of year 1 to 1970-01-01. -/
def epochDay : Int := 719162

/-- The year that holds the day with number `n`, counted from the first day of year 1. -/
def yearOf (n : Int) : Int :=
  let guess := n * 400 / 146097 + 1
  if n < daysBeforeYear guess then guess - 1
  else if daysBeforeYear (guess + 1) ≤ n then guess + 1
  else guess

/-- The month and the day of the month that lie `rest` days after the first day of month `month`;
    the list holds the lengths of that month and the following ones. -/
def monthAndDay : List Nat → Nat → Nat → Nat × Nat
  | [], month, rest => (month, rest + 1)
  | length :: later, month, rest =>
    if rest < length then (month, rest + 1) else monthAndDay later (month + 1) (rest - length)

/-! ## Dates -/

/-- A date: months count from 1 for January, days from 1. -/
structure Date where
  year : Int
  month : Nat
  day : Nat
deriving DecidableEq, Repr

namespace Date

/-- The month exists and has the day. -/
def isValid (d : Date) : Bool :=
  decide (1 ≤ d.month ∧ d.month ≤ 12 ∧ 1 ≤ d.day ∧ d.day ≤ monthLength d.year d.month)

/-- The days since 1970-01-01. -/
def dayNumber (d : Date) : Int :=
  daysBeforeYear d.year + daysBeforeMonth d.year d.month + d.day - 1 - epochDay

/-- The date with the given number of days since 1970-01-01. -/
def ofDayNumber (n : Int) : Date :=
  let year := yearOf (n + epochDay)
  let rest := (n + epochDay - daysBeforeYear year).toNat
  let (month, day) := monthAndDay (monthLengths year) 1 rest
  ⟨year, month, day⟩

/-- The day of the week, from 0 for Sunday to 6 for Saturday. -/
def weekday (d : Date) : Nat := ((d.dayNumber + 4) % 7).toNat

end Date

/-! ## Laws -/

/-- A year has 365 days, and one more in a leap year. -/
theorem daysBeforeYear_succ (year : Int) :
    daysBeforeYear (year + 1) = daysBeforeYear year + (if isLeap year then 366 else 365) := by
  simp only [daysBeforeYear, isLeap, Bool.and_eq_true, Bool.or_eq_true, beq_iff_eq, bne_iff_ne]
  split <;> omega

/-- The day with number `n` lies in the year `yearOf n`. -/
theorem daysBeforeYear_yearOf (n : Int) :
    daysBeforeYear (yearOf n) ≤ n ∧ n < daysBeforeYear (yearOf n + 1) := by
  have key : ∀ guess, guess = n * 400 / 146097 + 1 →
      daysBeforeYear (guess - 1) ≤ n ∧ n < daysBeforeYear (guess + 2) := by
    intro guess hguess
    simp only [daysBeforeYear]
    omega
  obtain ⟨hlow, hhigh⟩ := key _ rfl
  unfold yearOf
  simp only
  split
  · rename_i hbelow
    exact ⟨hlow, by rwa [show ∀ g : Int, g - 1 + 1 = g from fun g => by omega]⟩
  · rename_i hbelow
    split
    · rename_i habove
      exact ⟨habove, by rwa [show ∀ g : Int, g + 1 + 1 = g + 2 from fun g => by omega]⟩
    · rename_i habove
      exact ⟨by omega, by omega⟩

end JobFleet.Time
