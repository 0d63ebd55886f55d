/-
  JobFleet.Time.ZoneTable: a database of some time zones.

  A zone that changes its clocks is described by rules, one per run of years with the same habit:
  the day of the year, the time of that day in UTC, and the offset from then on.  Names are exact,
  and another name of a place is a zone of its own.
-/
import JobFleet.Time.Zone

namespace JobFleet.Time

/-! ## Rules -/

/-- Which day of its month a clock change falls on. -/
inductive ChangeDay
  /-- The given day. -/
  | dated (day : Nat)
  /-- The last Sunday. -/
  | lastSunday
  /-- The first Sunday on or after the given day. -/
  | sundayFrom (day : Nat)
deriving DecidableEq, Repr

/-- The day of the month in a given year. -/
def ChangeDay.dayOf (rule : ChangeDay) (year : Int) (month : Nat) : Nat :=
  match rule with
  | .dated day => day
  | .lastSunday =>
    let last := monthLength year month
    last - (Date.mk year month last).weekday
  | .sundayFrom day => day + (7 - (Date.mk year month day).weekday) % 7

/-- A clock change in each year from `first` to `last`. -/
structure ChangeRule where
  first : Nat
  last : Nat
  month : Nat
  day : ChangeDay
  /-- Seconds from midnight UTC at the start of the day to the change; negative for a change on the
      day before. -/
  time : Int
  offset : Int

/-- The changes of a rule, in order of time. -/
def ChangeRule.changes (rule : ChangeRule) : List OffsetChange :=
  (List.range (rule.last + 1 - rule.first)).map fun i =>
    let year : Int := (rule.first + i : Nat)
    let date : Date := ⟨year, rule.month, rule.day.dayOf year rule.month⟩
    ⟨date.dayNumber * secondsPerDay + rule.time, rule.offset⟩

/-- The changes of several rules, in order of time. -/
def changesOf (rules : List ChangeRule) : List OffsetChange :=
  (rules.flatMap ChangeRule.changes).mergeSort (fun a b => decide (a.second ≤ b.second))

/-- The last year for which clock changes are laid down. -/
def lastRuledYear : Nat := 2037

/-! ## Habits -/

/-- The habit of the European Union, with the two offsets of the zone. -/
def europeanRules (winter summer : Int) : List ChangeRule :=
  [⟨2000, lastRuledYear, 3, .lastSunday, clock 1 0, summer⟩,
   ⟨2000, lastRuledYear, 10, .lastSunday, clock 1 0, winter⟩]

/-- The habit of the eastern United States. -/
def easternRules : List ChangeRule :=
  [⟨2000, 2006, 4, .sundayFrom 1, clock 7 0, clock (-4) 0⟩,
   ⟨2000, 2006, 10, .lastSunday, clock 6 0, clock (-5) 0⟩,
   ⟨2007, lastRuledYear, 3, .sundayFrom 8, clock 7 0, clock (-4) 0⟩,
   ⟨2007, lastRuledYear, 11, .sundayFrom 1, clock 6 0, clock (-5) 0⟩]

/-- Newfoundland changed its clocks one minute after midnight until the autumn of 2011. -/
def newfoundlandRules : List ChangeRule :=
  [⟨2000, 2006, 4, .sundayFrom 1, clock 3 31, clock (-2) (-30)⟩,
   ⟨2000, 2006, 10, .lastSunday, clock 2 31, clock (-3) (-30)⟩,
   ⟨2007, 2011, 3, .sundayFrom 8, clock 3 31, clock (-2) (-30)⟩,
   ⟨2007, 2010, 11, .sundayFrom 1, clock 2 31, clock (-3) (-30)⟩,
   ⟨2011, lastRuledYear, 11, .sundayFrom 1, clock 4 30, clock (-3) (-30)⟩,
   ⟨2012, lastRuledYear, 3, .sundayFrom 8, clock 5 30, clock (-2) (-30)⟩]

/-- Brazil fixed its dates year by year, mostly around carnival, and gave summer time up in 2019. -/
def brazilianRules : List ChangeRule :=
  let summerFrom first last month day : ChangeRule :=
    ⟨first, last, month, day, clock 3 0, clock (-2) 0⟩
  let winterFrom first last month day : ChangeRule :=
    ⟨first, last, month, day, clock 2 0, clock (-3) 0⟩
  [winterFrom 2000 2000 2 (.dated 27), winterFrom 2001 2006 2 (.sundayFrom 15),
   winterFrom 2007 2007 2 (.dated 25), winterFrom 2008 2011 2 (.sundayFrom 15),
   winterFrom 2012 2012 2 (.dated 26), winterFrom 2013 2014 2 (.sundayFrom 15),
   winterFrom 2015 2015 2 (.dated 22), winterFrom 2016 2019 2 (.sundayFrom 15),
   summerFrom 2000 2001 10 (.sundayFrom 8), summerFrom 2002 2002 11 (.dated 3),
   summerFrom 2003 2003 10 (.dated 19), summerFrom 2004 2004 11 (.dated 2),
   summerFrom 2005 2005 10 (.dated 16), summerFrom 2006 2006 11 (.dated 5),
   summerFrom 2007 2007 10 (.dated 14), summerFrom 2008 2017 10 (.sundayFrom 15),
   summerFrom 2018 2018 11 (.dated 4)]

/-- Argentina kept summer time for two seasons. -/
def argentineRules : List ChangeRule :=
  [⟨2007, 2007, 12, .dated 30, clock 3 0, clock (-2) 0⟩,
   ⟨2008, 2008, 10, .dated 19, clock 3 0, clock (-2) 0⟩,
   ⟨2008, 2009, 3, .sundayFrom 15, clock 2 0, clock (-3) 0⟩]

/-- Cuba changes its clocks at midnight standard time; the summer time of 2004 lasted until 2006. -/
def cubanRules : List ChangeRule :=
  let summerFrom first last month day : ChangeRule :=
    ⟨first, last, month, day, clock 5 0, clock (-4) 0⟩
  let winterFrom first last month day : ChangeRule :=
    ⟨first, last, month, day, clock 5 0, clock (-5) 0⟩
  [summerFrom 2000 2003 4 (.sundayFrom 1), summerFrom 2004 2004 3 .lastSunday,
   summerFrom 2007 2007 3 (.sundayFrom 8), summerFrom 2008 2008 3 (.sundayFrom 15),
   summerFrom 2009 2010 3 (.sundayFrom 8), summerFrom 2011 2011 3 (.sundayFrom 15),
   summerFrom 2012 2012 4 (.dated 1), summerFrom 2013 lastRuledYear 3 (.sundayFrom 8),
   winterFrom 2000 2003 10 .lastSunday, winterFrom 2006 2010 10 .lastSunday,
   winterFrom 2011 2011 11 (.dated 13), winterFrom 2012 lastRuledYear 11 (.sundayFrom 1)]

/-- Lebanon changes its clocks at midnight. -/
def lebaneseRules : List ChangeRule :=
  [⟨2000, lastRuledYear, 3, .lastSunday, clock (-2) 0, clock 3 0⟩,
   ⟨2000, lastRuledYear, 10, .lastSunday, clock (-3) 0, clock 2 0⟩]

/-- Lord Howe Island sets its clocks by half an hour. -/
def lordHoweRules : List ChangeRule :=
  let winterFrom first last month day : ChangeRule :=
    ⟨first, last, month, day, clock (-9) 0, clock 10 30⟩
  let summerFrom first last month day : ChangeRule :=
    ⟨first, last, month, day, clock (-8) (-30), clock 11 0⟩
  [winterFrom 2000 2005 3 .lastSunday, winterFrom 2006 2006 4 (.sundayFrom 1),
   winterFrom 2007 2007 3 .lastSunday, winterFrom 2008 lastRuledYear 4 (.sundayFrom 1),
   summerFrom 2000 2000 8 .lastSunday, summerFrom 2001 2007 10 .lastSunday,
   summerFrom 2008 lastRuledYear 10 (.sundayFrom 1)]

/-- The Chatham Islands change their clocks with New Zealand. -/
def chathamRules : List ChangeRule :=
  let winterFrom first last month day : ChangeRule :=
    ⟨first, last, month, day, clock (-10) 0, clock 12 45⟩
  let summerFrom first last month day : ChangeRule :=
    ⟨first, last, month, day, clock (-10) 0, clock 13 45⟩
  [winterFrom 2000 2007 3 (.sundayFrom 15), winterFrom 2008 lastRuledYear 4 (.sundayFrom 1),
   summerFrom 2000 2006 10 (.sundayFrom 1), summerFrom 2007 lastRuledYear 9 .lastSunday]

/-! ## The table -/

/-- The zones of the table. -/
def tabledZones : List Zone :=
  [fixedZone "UTC" 0 0, fixedZone "GMT" 0 0, fixedZone "Etc/UTC" 0 0, fixedZone "Zulu" 0 0,
   fixedZone "Etc/GMT+12" (-12) 0, fixedZone "Etc/GMT-14" 14 0,
   fixedZone "Asia/Ho_Chi_Minh" 7 0, fixedZone "Asia/Saigon" 7 0,
   fixedZone "Asia/Kolkata" 5 30, fixedZone "Asia/Calcutta" 5 30, fixedZone "Asia/Kathmandu" 5 45,
   fixedZone "Pacific/Kiritimati" 14 0,
   ⟨"America/New_York", clock (-5) 0, changesOf easternRules⟩,
   ⟨"US/Eastern", clock (-5) 0, changesOf easternRules⟩,
   ⟨"EST5EDT", clock (-5) 0, changesOf easternRules⟩,
   ⟨"America/St_Johns", clock (-3) (-30), changesOf newfoundlandRules⟩,
   ⟨"America/Sao_Paulo", clock (-2) 0, changesOf brazilianRules⟩,
   ⟨"America/Argentina/Buenos_Aires", clock (-3) 0, changesOf argentineRules⟩,
   ⟨"America/Havana", clock (-5) 0, changesOf cubanRules⟩,
   ⟨"Europe/London", clock 0 0, changesOf (europeanRules (clock 0 0) (clock 1 0))⟩,
   ⟨"Europe/Berlin", clock 1 0, changesOf (europeanRules (clock 1 0) (clock 2 0))⟩,
   ⟨"Europe/Kyiv", clock 2 0, changesOf (europeanRules (clock 2 0) (clock 3 0))⟩,
   ⟨"Asia/Beirut", clock 2 0, changesOf lebaneseRules⟩,
   ⟨"Australia/Lord_Howe", clock 11 0, changesOf lordHoweRules⟩,
   ⟨"Pacific/Chatham", clock 13 45, changesOf chathamRules⟩]

/-- The database of the zones of the table. -/
def ZoneDatabase.tabled : ZoneDatabase where
  find? := fun name => tabledZones.find? (fun z => z.name == name)
  name_of_find? := fun h => by simpa using List.find?_some h

end JobFleet.Time
