/-
  JobFleet.Proofs.Time.Calendar: dates in the order of their days.

  Days are numbered, and dates are written with a year, a month and a day.  `Date.ofDayNumber` gives
  the date of a day, and a later date, compared by year, month and day, is that of a later day.

  Main results:
    * `isValid_ofDayNumber`, `dayNumber_ofDayNumber` — the date of a day exists and has its number.
    * `dayNumber_lt_of_isBefore` — the order of dates is that of their days.
    * `dayNumber_inj`, `ofDayNumber_dayNumber` — a date that exists is the only one of its day.
    * `seconds_ofSeconds`, `ofSeconds_seconds` — so a wall time that exists and its number of
      seconds make each other up.
-/
import JobFleet.Time.Instant

namespace JobFleet.Time

/-! ## Months -/

theorem foldl_add_eq (l : List Nat) (start : Nat) :
    l.foldl (· + ·) start = start + l.foldl (· + ·) 0 := by
  induction l generalizing start with
  | nil => rfl
  | cons n rest ih =>
    rw [List.foldl_cons, List.foldl_cons, ih, ih (0 + n)]
    omega

/-- The month and the day that lie some days on: the whole months before and the days of the last
    one make up the way. -/
theorem monthAndDay_add (lengths : List Nat) :
    ∀ month rest, month ≤ (monthAndDay lengths month rest).1 ∧
    (lengths.take ((monthAndDay lengths month rest).1 - month)).foldl (· + ·) 0 +
      (monthAndDay lengths month rest).2 =
      rest + 1 := by
  induction lengths with
  | nil =>
    intro month rest
    exact ⟨Nat.le_refl _, by simp [monthAndDay]⟩
  | cons length later ih =>
    intro month rest
    unfold monthAndDay
    split
    · exact ⟨Nat.le_refl _, by simp⟩
    · obtain ⟨hmonth, hsum⟩ := ih (month + 1) (rest - length)
      refine ⟨by omega, ?_⟩
      -- one month more than the rest of the way has
      have hstep : (monthAndDay later (month + 1) (rest - length)).1 - month =
          (monthAndDay later (month + 1) (rest - length)).1 - (month + 1) + 1 := by
        omega
      rw [hstep, List.take_succ_cons, List.foldl_cons, foldl_add_eq]
      omega

/-- The day lies in its month, if the way ends within the months. -/
theorem monthAndDay_day (lengths : List Nat) :
    ∀ month rest, 1 ≤ (monthAndDay lengths month rest).2 ∧
    (rest < lengths.foldl (· + ·) 0 →
      ∃ length, lengths[(monthAndDay lengths month rest).1 - month]? = some length ∧
      (monthAndDay lengths month rest).2 ≤ length) := by
  induction lengths with
  | nil =>
    intro month rest
    exact ⟨Nat.le_add_left 1 rest, fun h => absurd h (Nat.not_lt_zero rest)⟩
  | cons length later ih =>
    intro month rest
    unfold monthAndDay
    split
    · rename_i hlt
      exact ⟨Nat.le_add_left 1 rest, fun _ => ⟨length, by simp, hlt⟩⟩
    · rename_i hge
      obtain ⟨hday, hlast⟩ := ih (month + 1) (rest - length)
      refine ⟨hday, ?_⟩
      intro hlt
      rw [List.foldl_cons, foldl_add_eq] at hlt
      obtain ⟨last, hfound, hle⟩ := hlast (by omega)
      have hmonth := (monthAndDay_add later (month + 1) (rest - length)).1
      have hstep : (monthAndDay later (month + 1) (rest - length)).1 - month =
          (monthAndDay later (month + 1) (rest - length)).1 - (month + 1) + 1 := by
        omega
      refine ⟨last, ?_, hle⟩
      rw [hstep, List.getElem?_cons_succ]
      exact hfound

/-- The months of a year make up its days. -/
theorem monthLengths_year (year : Int) :
    (monthLengths year).foldl (· + ·) 0 = if isLeap year then 366 else 365 := by
  cases hleap : isLeap year <;> simp [monthLengths, monthLength, hleap, List.range_succ]

theorem getElem?_monthLengths {year : Int} {month : Nat} (h : month < 12) :
    (monthLengths year)[month]? = some (monthLength year (month + 1)) := by
  unfold monthLengths
  rw [List.getElem?_map, List.getElem?_range h]
  rfl

theorem daysBeforeMonth_succ (year : Int) {month : Nat} (hfirst : 1 ≤ month) (hlast : month ≤ 12) :
    daysBeforeMonth year (month + 1) = daysBeforeMonth year month + monthLength year month := by
  obtain ⟨before, rfl⟩ := Nat.exists_eq_add_of_le' hfirst
  unfold daysBeforeMonth
  show ((monthLengths year).take (before + 1)).foldl _ 0 =
    ((monthLengths year).take before).foldl _ 0 + _
  rw [List.take_add_one, getElem?_monthLengths (by omega), List.foldl_append]
  rfl

theorem daysBeforeMonth_mono (year : Int) {month month' : Nat} (h : month ≤ month') :
    daysBeforeMonth year month ≤ daysBeforeMonth year month' := by
  unfold daysBeforeMonth
  obtain ⟨more, hmore⟩ := Nat.exists_eq_add_of_le (Nat.sub_le_sub_right h 1)
  rw [hmore, List.take_add, List.foldl_append, foldl_add_eq _ (List.foldl _ _ _)]
  exact Nat.le_add_right _ _

theorem daysBeforeYear_mono {year year' : Int} (h : year ≤ year') :
    daysBeforeYear year ≤ daysBeforeYear year' := by
  unfold daysBeforeYear
  simp only
  omega

/-! ## Dates -/

namespace Date

/-- A date comes before another by year, month and day. -/
def IsBefore (a b : Date) : Prop :=
  a.year < b.year ∨ a.year = b.year ∧ (a.month < b.month ∨ a.month = b.month ∧ a.day < b.day)

/-- The date of a day has its number. -/
theorem dayNumber_ofDayNumber (n : Int) : (ofDayNumber n).dayNumber = n := by
  have hfrom := (daysBeforeYear_yearOf (n + epochDay)).1
  have hsum := (monthAndDay_add (monthLengths (yearOf (n + epochDay))) 1
    (n + epochDay - daysBeforeYear (yearOf (n + epochDay))).toNat).2
  simp only [dayNumber, ofDayNumber, daysBeforeMonth]
  omega

/-- The date of a day exists. -/
theorem isValid_ofDayNumber (n : Int) : (ofDayNumber n).isValid = true := by
  obtain ⟨hfrom, hto⟩ := daysBeforeYear_yearOf (n + epochDay)
  have hmonth := (monthAndDay_add (monthLengths (yearOf (n + epochDay))) 1
    (n + epochDay - daysBeforeYear (yearOf (n + epochDay))).toNat).1
  obtain ⟨hday, hlast⟩ := monthAndDay_day (monthLengths (yearOf (n + epochDay))) 1
    (n + epochDay - daysBeforeYear (yearOf (n + epochDay))).toNat
  -- the way is shorter than the year
  rw [monthLengths_year] at hlast
  rw [daysBeforeYear_succ] at hto
  obtain ⟨length, hfound, hle⟩ := hlast (by split at hto <;> simp_all <;> omega)
  have hrange := (List.getElem?_eq_some_iff.1 hfound).1
  have htwelve : (monthLengths (yearOf (n + epochDay))).length = 12 := by simp [monthLengths]
  rw [htwelve] at hrange
  rw [getElem?_monthLengths hrange, Nat.sub_add_cancel hmonth] at hfound
  cases hfound
  have hend : (monthAndDay (monthLengths (yearOf (n + epochDay))) 1
      (n + epochDay - daysBeforeYear (yearOf (n + epochDay))).toNat).1 ≤ 12 := by
    omega
  exact decide_eq_true ⟨hmonth, hend, hday, hle⟩

/-- A date that exists lies before the next year. -/
theorem dayNumber_lt_year {d : Date} (h : d.isValid = true) :
    d.dayNumber + epochDay < daysBeforeYear (d.year + 1) := by
  obtain ⟨hfirst, hlast, -, hday⟩ := of_decide_eq_true h
  have hsucc := daysBeforeMonth_succ d.year hfirst hlast
  have hmono := daysBeforeMonth_mono d.year (Nat.succ_le_succ hlast)
  have hyear : daysBeforeMonth d.year 13 = if isLeap d.year then 366 else 365 :=
    monthLengths_year d.year
  rw [daysBeforeYear_succ]
  unfold dayNumber
  split at hyear <;> simp_all <;> omega

/-- A later date is that of a later day. -/
theorem dayNumber_lt_of_isBefore {a b : Date} (ha : a.isValid = true) (hb : 1 ≤ b.day)
    (h : a.IsBefore b) :
    a.dayNumber < b.dayNumber := by
  obtain ⟨hfirst, hlast, -, hday⟩ := of_decide_eq_true ha
  rcases h with hyear | ⟨hyear, hmonth | ⟨hmonth, hless⟩⟩
  -- the whole year of the first date is over
  · have hbefore := dayNumber_lt_year ha
    have hmono := daysBeforeYear_mono (show a.year + 1 ≤ b.year from hyear)
    unfold dayNumber at hbefore ⊢
    omega
  -- the whole month of the first date is over
  · have hsucc := daysBeforeMonth_succ a.year hfirst hlast
    have hmono := daysBeforeMonth_mono a.year (show a.month + 1 ≤ b.month from hmonth)
    unfold dayNumber
    rw [← hyear]
    omega
  · unfold dayNumber
    rw [← hyear, ← hmonth]
    omega

/-- Of two dates one comes before the other, unless they are the same. -/
theorem isBefore_or_eq_or_isBefore (a b : Date) : a.IsBefore b ∨ a = b ∨ b.IsBefore a := by
  by_cases heq : a = b
  · exact .inr (.inl heq)
  · have hparts : ¬ (a.year = b.year ∧ a.month = b.month ∧ a.day = b.day) := by
      rintro ⟨hyear, hmonth, hday⟩
      cases a
      cases b
      simp_all
    unfold IsBefore
    omega

theorem one_le_day {d : Date} (h : d.isValid = true) : 1 ≤ d.day := (of_decide_eq_true h).2.2.1

/-- Two dates of one day are the same. -/
theorem dayNumber_inj {a b : Date} (ha : a.isValid = true) (hb : b.isValid = true)
    (h : a.dayNumber = b.dayNumber) :
    a = b := by
  rcases isBefore_or_eq_or_isBefore a b with hbefore | heq | hafter
  · have hlt := dayNumber_lt_of_isBefore ha (one_le_day hb) hbefore
    omega
  · exact heq
  · have hlt := dayNumber_lt_of_isBefore hb (one_le_day ha) hafter
    omega

/-- A date that exists is the date of its day. -/
theorem ofDayNumber_dayNumber {d : Date} (h : d.isValid = true) : ofDayNumber d.dayNumber = d :=
  dayNumber_inj (isValid_ofDayNumber _) h (dayNumber_ofDayNumber _)

/-- A date lies in a year or after it just when its day is not before the first day of the year. -/
theorem year_le_iff {d : Date} (h : d.isValid = true) (year : Int) :
    year ≤ d.year ↔ (Date.mk year 1 1).dayNumber ≤ d.dayNumber := by
  have hvalid : (Date.mk year 1 1).isValid = true := by
    unfold isValid monthLength
    rfl
  constructor
  · intro hyear
    rcases isBefore_or_eq_or_isBefore (Date.mk year 1 1) d with hbefore | heq | hafter
    · exact Int.le_of_lt (dayNumber_lt_of_isBefore hvalid (one_le_day h) hbefore)
    · exact Int.le_of_eq (congrArg dayNumber heq)
    · obtain ⟨hmonth, -, hday, -⟩ := of_decide_eq_true h
      unfold IsBefore at hafter
      simp only at hafter
      omega
  · intro hday
    refine Int.not_lt.1 (fun hyear => ?_)
    have hbefore : d.IsBefore ⟨year, 1, 1⟩ := .inl hyear
    have hlt := dayNumber_lt_of_isBefore h (Nat.le_refl 1) hbefore
    omega

/-- The year of a day is not before 1970 just when the day is not. -/
theorem epochYear_le_iff {d : Date} (h : d.isValid = true) : 1970 ≤ d.year ↔ 0 ≤ d.dayNumber :=
  year_le_iff h 1970

end Date

/-! ## Wall time -/

namespace WallTime

/-- The date exists, and so does the time of day. -/
structure Exists (w : WallTime) : Prop where
  date : w.date.isValid = true
  hour : w.hour ≤ 23
  minute : w.minute ≤ 59
  second : w.second ≤ 59

/-- Wall time that was made of some seconds exists. -/
theorem exists_ofSeconds (s : Int) : (ofSeconds s).Exists := by
  unfold ofSeconds secondsPerDay
  constructor
  · exact Date.isValid_ofDayNumber _
  · show (s % 86400).toNat / 3600 ≤ 23
    omega
  · show (s % 86400).toNat / 60 % 60 ≤ 59
    omega
  · show (s % 86400).toNat % 60 ≤ 59
    omega

/-- Wall time that was made of some seconds has as many. -/
theorem seconds_ofSeconds (s : Int) : (ofSeconds s).seconds = s := by
  unfold seconds ofSeconds secondsPerDay
  simp only [Date.dayNumber_ofDayNumber]
  omega

/-- Wall time that exists is made of its seconds. -/
theorem ofSeconds_seconds {w : WallTime} (h : w.Exists) : ofSeconds w.seconds = w := by
  obtain ⟨hdate, hhour, hminute, hsecond⟩ := h
  have hday : w.seconds / secondsPerDay = w.date.dayNumber := by
    unfold seconds secondsPerDay
    omega
  have htime : (w.seconds % secondsPerDay).toNat = 3600 * w.hour + 60 * w.minute + w.second := by
    unfold seconds secondsPerDay
    omega
  unfold ofSeconds
  rw [hday, htime, Date.ofDayNumber_dayNumber hdate]
  have hh : (3600 * w.hour + 60 * w.minute + w.second) / 3600 = w.hour := by omega
  have hm : (3600 * w.hour + 60 * w.minute + w.second) / 60 % 60 = w.minute := by omega
  have hs : (3600 * w.hour + 60 * w.minute + w.second) % 60 = w.second := by omega
  simp only [hh, hm, hs]

/-- Clocks show a year from 1970 on just when they show no less than the start of that year. -/
theorem epochYear_le_iff (s : Int) : 1970 ≤ (ofSeconds s).date.year ↔ 0 ≤ s := by
  rw [Date.epochYear_le_iff (exists_ofSeconds s).date]
  show 0 ≤ (Date.ofDayNumber (s / secondsPerDay)).dayNumber ↔ 0 ≤ s
  rw [Date.dayNumber_ofDayNumber]
  unfold secondsPerDay
  omega

end WallTime

end JobFleet.Time
