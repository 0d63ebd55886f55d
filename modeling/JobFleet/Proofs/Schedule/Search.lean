/-
  JobFleet.Proofs.Schedule.Search: the search of a pattern by wall time finds the first time that
  clocks show once.

  The search runs through years, months, dates, hours and minutes, each in ascending order, and
  takes the first answer.  At every level it is told apart what is searched from how: `Finds` says
  that an answer is that of the least time in a set, and a list of sets that follow each other is
  searched by searching one after the other.

  Main results:
    * `finds_findSome?` — searching sets that follow each other.
    * `finds_firstFrom` — the search from a bound finds the first time of the pattern that is not
      before it.
-/
import JobFleet.Proofs.Schedule.Ahead
import JobFleet.Proofs.Schedule.Expression

namespace JobFleet.Schedule

open JobFleet.Time

/-! ## First answers -/

/-- The answer is that of the least number in the set that has one. -/
def Finds (ask : Int → Option Int) (P : Int → Prop) : Option Int → Prop
  | some answer => ∃ n, P n ∧ ask n = some answer ∧ ∀ m < n, P m → ask m = none
  | none => ∀ n, P n → ask n = none

section Finds

variable {α : Type} {ask : Int → Option Int} {P Q : Int → Prop} {answer : Option Int}

theorem Finds.congr (h : Finds ask P answer) (hsame : ∀ n, Q n ↔ P n) : Finds ask Q answer := by
  obtain rfl : Q = P := funext fun n => propext (hsame n)
  exact h

/-- In a set of one number its answer is the first. -/
theorem finds_single (ask : Int → Option Int) (n : Int) : Finds ask (· = n) (ask n) := by
  cases hn : ask n with
  | none =>
    rintro m rfl
    exact hn
  | some answer =>
    refine ⟨n, rfl, hn, ?_⟩
    rintro m hlt rfl
    exact absurd hlt (Int.lt_irrefl m)

/-- A set that is left out has no answer. -/
theorem finds_ite {c : Prop} [Decidable c] (h : Finds ask P answer) :
    Finds ask (fun n => ¬ c ∧ P n) (if c then none else answer) := by
  split
  · rename_i hc
    exact fun n hn => absurd hc hn.1
  · rename_i hc
    exact h.congr (fun n => and_iff_right hc)

/-- Sets that follow each other are searched one after the other. -/
theorem finds_findSome? {f : α → Option Int} {R : α → Int → Prop} {l : List α}
    (hfollow : l.Pairwise (fun a b => ∀ m n, R a m → R b n → m < n))
    (h : ∀ a ∈ l, Finds ask (R a) (f a)) :
    Finds ask (fun n => ∃ a ∈ l, R a n) (l.findSome? f) := by
  induction l with
  | nil => exact fun n ⟨a, ha, _⟩ => absurd ha List.not_mem_nil
  | cons a rest ih =>
    obtain ⟨hfirst, hrest⟩ := List.pairwise_cons.1 hfollow
    have hhead := h a List.mem_cons_self
    have htail := ih hrest (fun b hb => h b (List.mem_cons_of_mem a hb))
    rw [List.findSome?_cons]
    cases ha : f a with
    | some answer =>
      -- what the rest holds comes later than this answer
      rw [ha] at hhead
      obtain ⟨n, hn, hask, hleast⟩ := hhead
      refine ⟨n, ⟨a, List.mem_cons_self, hn⟩, hask, ?_⟩
      rintro m hlt ⟨b, hb, hm⟩
      rcases List.mem_cons.1 hb with rfl | hb
      · exact hleast m hlt hm
      · have hlater := hfirst b hb n m hn hm
        omega
    | none =>
      rw [ha] at hhead
      have hnone : ∀ m, R a m → ask m = none := hhead
      cases hrestAnswer : rest.findSome? f with
      | none =>
        rw [hrestAnswer] at htail
        rintro n ⟨b, hb, hn⟩
        rcases List.mem_cons.1 hb with rfl | hb
        · exact hnone n hn
        · exact htail n ⟨b, hb, hn⟩
      | some answer =>
        rw [hrestAnswer] at htail
        obtain ⟨n, ⟨b, hb, hn⟩, hask, hleast⟩ := htail
        refine ⟨n, ⟨b, List.mem_cons_of_mem a hb, hn⟩, hask, ?_⟩
        rintro m hlt ⟨d, hd, hm⟩
        rcases List.mem_cons.1 hd with rfl | hd
        · exact hnone m hm
        · exact hleast m hlt ⟨d, hd, hm⟩

end Finds

namespace Pattern

variable {p : Pattern} {z : Zone} {bound : WallTime} {date : Date} {year : Int}

/-! ## Dates -/

/-- The wall time is a whole minute of the date that the pattern allows, and on the date of the
    bound not before it. -/
def TimeOn (p : Pattern) (bound : WallTime) (date : Date) (wall : Int) : Prop :=
  ∃ hour ∈ p.hours, ∃ minute ∈ p.minutes, (date = bound.date → Reaches bound hour minute) ∧
    wall = (WallTime.mk date hour minute 0).seconds

/-- A time of a date lies on its day. -/
theorem TimeOn.bounds (hp : p.WellFormed) {wall : Int} (h : p.TimeOn bound date wall) :
    date.dayNumber * secondsPerDay ≤ wall ∧ wall < (date.dayNumber + 1) * secondsPerDay := by
  obtain ⟨hour, hhour, minute, hminute, -, rfl⟩ := h
  have hhour : hour ≤ 23 := (hp.bounds .hour hour hhour).2
  have hminute : minute ≤ 59 := (hp.bounds .minute minute hminute).2
  unfold WallTime.seconds secondsPerDay
  simp only
  omega

/-- The search of an hour finds its first minute. -/
theorem finds_minutes (hp : p.WellFormed) (hour : Nat) :
    Finds z.once? (fun wall => ∃ minute ∈ p.minutes, ¬ (date = bound.date ∧ hour = bound.hour ∧
        (minute < bound.minute ∨ (minute = bound.minute ∧ 0 < bound.second))) ∧
          wall = (WallTime.mk date hour minute 0).seconds)
      (p.minutes.findSome? fun minute =>
        if date = bound.date ∧ hour = bound.hour ∧
            (minute < bound.minute ∨ (minute = bound.minute ∧ 0 < bound.second)) then none
        else z.once? (WallTime.mk date hour minute 0).seconds) := by
  refine finds_findSome? ?_ (fun minute _ => finds_ite (finds_single z.once? _))
  refine (hp.ascending .minute).imp ?_
  rintro a b hlt _ _ ⟨-, rfl⟩ ⟨-, rfl⟩
  unfold WallTime.seconds
  simp only
  omega

/-- The search of a date finds its first time. -/
theorem finds_firstOn (hp : p.WellFormed) :
    Finds z.once? (p.TimeOn bound date) (p.firstOn z bound date) := by
  unfold firstOn
  refine (finds_findSome? ?_ (fun hour _ => finds_ite (finds_minutes hp hour))).congr
    (fun wall => ?_)
  · -- a later hour is later, whatever the minutes
    refine (hp.ascending .hour).imp ?_
    rintro a b hlt _ _ ⟨-, minute, hminute, -, rfl⟩ ⟨-, minute', -, -, rfl⟩
    have hminute : minute ≤ 59 := (hp.bounds .minute minute hminute).2
    unfold WallTime.seconds
    simp only
    omega
  · constructor
    · rintro ⟨hour, hhour, minute, hminute, hreaches, rfl⟩
      unfold Reaches at hreaches
      refine ⟨hour, hhour, ?_, minute, hminute, ?_, rfl⟩
      · rintro ⟨hdate, hless⟩
        have hreaches := hreaches hdate
        omega
      · rintro ⟨hdate, hless⟩
        have hreaches := hreaches hdate
        omega
    · rintro ⟨hour, hhour, hnot, minute, hminute, hnot', rfl⟩
      refine ⟨hour, hhour, minute, hminute, ?_, rfl⟩
      intro hdate
      simp only [hdate, true_and] at hnot hnot'
      unfold Reaches
      omega

/-- Times of a later date come later. -/
theorem TimeOn.lt_of_isBefore (hp : p.WellFormed) {date' : Date} {wall wall' : Int}
    (h : p.TimeOn bound date wall) (h' : p.TimeOn bound date' wall') (hvalid : date.isValid = true)
    (hday : 1 ≤ date'.day) (hbefore : date.IsBefore date') : wall < wall' := by
  have hlt := Date.dayNumber_lt_of_isBefore hvalid hday hbefore
  have hto := (h.bounds hp).2
  have hfrom := (h'.bounds hp).1
  unfold secondsPerDay at hto hfrom
  omega

/-! ## Years -/

/-- The dates of a month that the pattern allows. -/
theorem mem_datesOf {month : Nat} (hmonth : 1 ≤ month ∧ month ≤ 12) :
    date ∈ p.datesOf year month ↔ date.isValid = true ∧ date.year = year ∧ date.month = month ∧
    p.allowsDate date = true := by
  unfold datesOf Date.isValid
  rw [List.mem_filter, List.mem_map, decide_eq_true_eq]
  constructor
  · rintro ⟨⟨i, hi, rfl⟩, hallowed⟩
    have hlt := List.mem_range.1 hi
    exact ⟨⟨hmonth.1, hmonth.2, Nat.le_add_left 1 i, hlt⟩, rfl, rfl, hallowed⟩
  · rintro ⟨⟨-, -, hday, hlast⟩, rfl, rfl, hallowed⟩
    refine ⟨⟨date.day - 1, List.mem_range.2 (by omega), ?_⟩, hallowed⟩
    rw [Nat.sub_add_cancel hday]

/-- They are listed day by day. -/
theorem datesOf_ascending (p : Pattern) (year : Int) (month : Nat) :
    (p.datesOf year month).Pairwise Date.IsBefore := by
  refine List.Pairwise.filter _ (List.pairwise_map.2 ?_)
  refine List.pairwise_lt_range.imp ?_
  intro a b hlt
  exact .inr ⟨rfl, .inr ⟨rfl, Nat.succ_lt_succ hlt⟩⟩

/-- The search of a month finds its first time. -/
theorem finds_month (hp : p.WellFormed) {month : Nat} (hmonth : 1 ≤ month ∧ month ≤ 12) :
    Finds z.once? (fun wall => ∃ date ∈ p.datesOf year month,
        ¬ (year = bound.date.year ∧ month = bound.date.month ∧ date.day < bound.date.day) ∧
        p.TimeOn bound date wall)
      ((p.datesOf year month).findSome? fun date =>
        if year = bound.date.year ∧ month = bound.date.month ∧ date.day < bound.date.day then none
        else p.firstOn z bound date) := by
  refine finds_findSome? ?_ (fun date _ => finds_ite (finds_firstOn hp))
  refine (List.Pairwise.and_mem.1 (datesOf_ascending p year month)).imp ?_
  rintro a b ⟨ha, hb, hbefore⟩ _ _ ⟨-, ha'⟩ ⟨-, hb'⟩
  exact ha'.lt_of_isBefore hp hb' ((mem_datesOf hmonth).1 ha).1
    (Date.one_le_day ((mem_datesOf hmonth).1 hb).1) hbefore

/-- The wall time is one of the pattern on a date of the year, and not before the bound. -/
def TimeIn (p : Pattern) (bound : WallTime) (year : Int) (wall : Int) : Prop :=
  ∃ date, date.isValid = true ∧ date.year = year ∧ p.allowsDate date = true ∧
    (bound.date.IsBefore date ∨ date = bound.date) ∧ p.TimeOn bound date wall

/-- The search of a year finds its first time. -/
theorem finds_firstIn (hp : p.WellFormed) (hyear : bound.date.year ≤ year) :
    Finds z.once? (p.TimeIn bound year) (p.firstIn z bound year) := by
  have hmonths : ∀ month ∈ p.months, 1 ≤ month ∧ month ≤ 12 := hp.bounds .month
  unfold firstIn
  refine (finds_findSome? ?_ (fun month hmonth =>
    finds_ite (finds_month hp (hmonths month hmonth)))).congr
    (fun wall => ?_)
  · -- a later month is later, whatever the days and the times of day
    refine (List.Pairwise.and_mem.1 (hp.ascending .month)).imp ?_
    rintro a b ⟨ha, hb, hlt⟩ _ _ ⟨-, date, hdate, -, htime⟩ ⟨-, date', hdate', -, htime'⟩
    obtain ⟨hvalid, hyear, hmonth, -⟩ := (mem_datesOf (hmonths a ha)).1 hdate
    obtain ⟨hvalid', hyear', hmonth', -⟩ := (mem_datesOf (hmonths b hb)).1 hdate'
    refine htime.lt_of_isBefore hp htime' hvalid (Date.one_le_day hvalid')
      (.inr ⟨hyear.trans hyear'.symm, .inl ?_⟩)
    rw [hmonth, hmonth']
    exact hlt
  · constructor
    · rintro ⟨date, hvalid, rfl, hallowed, hreached, htime⟩
      have hmonth : date.month ∈ p.months := by
        unfold allowsDate at hallowed
        rw [Bool.and_eq_true, Bool.and_eq_true] at hallowed
        exact List.contains_iff_mem.1 hallowed.1.1
      refine ⟨date.month, hmonth, ?_, date,
        (mem_datesOf (hmonths _ hmonth)).2 ⟨hvalid, rfl, rfl, hallowed⟩, ?_, htime⟩
      · rcases hreached with hbefore | rfl
        · unfold Date.IsBefore at hbefore
          omega
        · exact fun h => Nat.lt_irrefl _ h.2
      · rcases hreached with hbefore | rfl
        · unfold Date.IsBefore at hbefore
          omega
        · exact fun h => Nat.lt_irrefl _ h.2.2
    · rintro ⟨month, hmonth, hnot, date, hdate, hnot', htime⟩
      obtain ⟨hvalid, rfl, rfl, hallowed⟩ := (mem_datesOf (hmonths month hmonth)).1 hdate
      -- the months and the days that are left out are those before the bound
      refine ⟨date, hvalid, rfl, hallowed, ?_, htime⟩
      rcases Date.isBefore_or_eq_or_isBefore bound.date date with hbefore | heq | hafter
      · exact .inl hbefore
      · exact .inr heq.symm
      · unfold Date.IsBefore at hafter
        omega

theorem mem_yearsFrom {first : Int} : year ∈ yearsFrom first ↔ first ≤ year ∧ year ≤ lastYear := by
  unfold yearsFrom
  rw [List.mem_map]
  constructor
  · rintro ⟨i, hi, rfl⟩
    have hlt := List.mem_range.1 hi
    omega
  · rintro ⟨hfirst, hlast⟩
    exact ⟨(year - first).toNat, List.mem_range.2 (by omega), by omega⟩

theorem yearsFrom_ascending (first : Int) : (yearsFrom first).Pairwise (· < ·) := by
  refine List.pairwise_map.2 (List.pairwise_lt_range.imp ?_)
  intro a b hlt
  omega

/-! ## All dates -/

/-- The wall time is a whole minute that the pattern allows, in a year of the search. -/
structure Fits (p : Pattern) (w : WallTime) : Prop where
  exact : w.Exists
  year : w.date.year ≤ lastYear
  date : p.allowsDate w.date = true
  hour : w.hour ∈ p.hours
  minute : w.minute ∈ p.minutes
  second : w.second = 0

/-- A time is not before the bound by date and time of day just when it is not by seconds. -/
theorem reached_iff {w : WallTime} (hw : w.Exists) (hbound : bound.Exists)
    (hsecond : w.second = 0) :
    (bound.date.IsBefore w.date ∨ w.date = bound.date) ∧
    (w.date = bound.date → Reaches bound w.hour w.minute) ↔
      bound.seconds ≤ w.seconds := by
  obtain ⟨hdate, hhour, hminute, -⟩ := hw
  obtain ⟨hdate', hhour', hminute', hsecond'⟩ := hbound
  unfold Reaches WallTime.seconds secondsPerDay
  -- a day is longer than any time of day, so dates that differ decide
  rcases Date.isBefore_or_eq_or_isBefore bound.date w.date with hbefore | heq | hafter
  · have hlt := Date.dayNumber_lt_of_isBefore hdate' (Date.one_le_day hdate) hbefore
    have hne : w.date ≠ bound.date := by
      intro heq
      rw [heq] at hlt
      exact absurd hlt (Int.lt_irrefl _)
    simp only [hbefore, hne, true_or, false_implies, and_true, true_iff]
    omega
  · simp only [heq, or_true, true_and, forall_const]
    omega
  · have hlt := Date.dayNumber_lt_of_isBefore hdate (Date.one_le_day hdate') hafter
    have hne : w.date ≠ bound.date := by
      intro heq
      rw [heq] at hlt
      exact absurd hlt (Int.lt_irrefl _)
    have hnot : ¬ bound.date.IsBefore w.date := by
      intro hbefore
      have hlt' := Date.dayNumber_lt_of_isBefore hdate' (Date.one_le_day hdate) hbefore
      omega
    simp only [hne, hnot, or_self, false_and, false_iff]
    omega

/-- The search from a bound finds the first time that the pattern allows and that is not before
    it. -/
theorem finds_firstFrom (hp : p.WellFormed) (hbound : bound.Exists)
    (hyear : firstYear ≤ bound.date.year) :
    Finds z.once? (fun wall => ∃ w, p.Fits w ∧ wall = w.seconds ∧
      bound.seconds ≤ w.seconds) (p.firstFrom z bound) := by
  have hclamped : clampYear bound = bound := by
    unfold clampYear
    rw [Int.max_eq_left hyear]
  unfold firstFrom
  simp only [hclamped]
  refine (finds_findSome? ?_ (fun year hmem => finds_firstIn hp (mem_yearsFrom.1 hmem).1)).congr
    (fun wall => ?_)
  · -- a later year is later
    refine (yearsFrom_ascending _).imp ?_
    rintro a b hlt _ _ ⟨date, hvalid, rfl, -, -, htime⟩ ⟨date', hvalid', rfl, -, -, htime'⟩
    exact htime.lt_of_isBefore hp htime' hvalid (Date.one_le_day hvalid') (.inl hlt)
  · constructor
    · rintro ⟨w, ⟨hexists, hlast, hallowed, hhour, hminute, hsecond⟩, rfl, hle⟩
      obtain ⟨hreached, htime⟩ := (reached_iff hexists hbound hsecond).2 hle
      -- its year is searched, since the bound is not in a later one
      refine ⟨w.date.year, mem_yearsFrom.2 ⟨?_, hlast⟩, w.date, hexists.date, rfl, hallowed,
        hreached, w.hour, hhour, w.minute, hminute, htime, ?_⟩
      · rcases hreached with hbefore | heq
        · unfold Date.IsBefore at hbefore
          omega
        · exact Int.le_of_eq (by rw [heq])
      · rw [← hsecond]
    · rintro ⟨year, hmem, date, hvalid, rfl, hallowed, hreached, hour, hhour, minute,
        hminute, htime, rfl⟩
      have hexists : (WallTime.mk date hour minute 0).Exists :=
        ⟨hvalid, (hp.bounds .hour hour hhour).2,
          (hp.bounds .minute minute hminute).2, Nat.zero_le _⟩
      exact ⟨_, ⟨hexists, (mem_yearsFrom.1 hmem).2, hallowed, hhour, hminute, rfl⟩, rfl,
        (reached_iff hexists hbound rfl).1 ⟨hreached, htime⟩⟩

end Pattern

end JobFleet.Schedule
