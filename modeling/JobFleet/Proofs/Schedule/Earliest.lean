/-
  JobFleet.Proofs.Schedule.Earliest: a cron expression fires at the earliest instant that matches
  it.

  The search goes by wall time, and what is claimed is about instants.  In a regular zone the two
  orders agree on the times that clocks show once, so the first such time of the pattern gives the
  first instant; of two patterns the earlier answer counts.

  Main results:
    * `least_firstFrom` — the first time of a pattern is shown at its first instant.
    * `Carries.exists_fits_iff` — the patterns of a trigger stand for the rule about the two kinds
      of days.
    * `next?_earliest` — the next fire time of a cron expression is the earliest instant that
      matches.
-/
import JobFleet.Proofs.Schedule.Search
import JobFleet.Proofs.Time.Regular

namespace JobFleet

open JobFleet.Time

namespace Schedule

/-! ## First instants -/

/-- The answer is the first instant of the set. -/
def Least (P : Instant → Prop) : Option Instant → Prop
  | some t => P t ∧ ∀ t', P t' → t ≤ t'
  | none => ∀ t, ¬ P t

section Least

variable {P Q : Instant → Prop} {answer : Option Instant} {t : Instant}

/-- The first instant of a set is that of the same set. -/
theorem Least.congr (h : Least P answer) (hsame : ∀ t, Q t ↔ P t) : Least Q answer := by
  obtain rfl : Q = P := funext fun t => propext (hsame t)
  exact h

/-- An answer is the first instant of the set. -/
theorem Least.eq_some_iff (h : Least P answer) : answer = some t ↔ P t ∧ ∀ t', P t' → t ≤ t' := by
  cases answer with
  | none =>
    constructor
    · intro hnone
      cases hnone
    · exact fun ht => absurd ht.1 (h t)
  | some first =>
    constructor
    · intro hsome
      cases hsome
      exact h
    · rintro ⟨ht, hleast⟩
      have hle : first.nanos ≤ t.nanos := h.2 t ht
      have hge : t.nanos ≤ first.nanos := hleast first h.1
      cases t
      cases first
      simp only at hle hge
      rw [Int.le_antisymm hle hge]

/-- There is no answer just if the set is empty. -/
theorem Least.eq_none_iff (h : Least P answer) : answer = none ↔ ∀ t, ¬ P t := by
  cases answer with
  | none => exact iff_of_true rfl h
  | some first => exact iff_of_false (by simp) (fun hnone => hnone first h.1)

namespace CronTrigger

theorem foldl_min_le (rest : List Instant) :
    ∀ first : Instant, ∀ t ∈ first :: rest, rest.foldl min first ≤ t := by
  have hmin : ∀ a b : Instant, min a b ≤ a ∧ min a b ≤ b := by
    intro a b
    show (if a ≤ b then a else b).nanos ≤ a.nanos ∧ (if a ≤ b then a else b).nanos ≤ b.nanos
    split
    · rename_i hle
      exact ⟨Int.le_refl _, hle⟩
    · rename_i hnot
      exact ⟨Int.le_of_lt (Int.not_le.1 hnot), Int.le_refl _⟩
  induction rest with
  | nil =>
    intro first t ht
    rw [List.mem_singleton.1 ht]
    exact Int.le_refl _
  | cons second rest ih =>
    intro first t ht
    rw [List.foldl_cons]
    -- the rest is folded from the lesser of the first two on
    have hhead : rest.foldl min (min first second) ≤ min first second := ih _ _ List.mem_cons_self
    rcases List.mem_cons.1 ht with rfl | ht
    · exact Int.le_trans hhead (hmin t second).1
    · rcases List.mem_cons.1 ht with rfl | ht
      · exact Int.le_trans hhead (hmin first t).2
      · exact ih _ t (List.mem_cons_of_mem _ ht)

/-- The earliest of some instants is not after any of them. -/
theorem le_of_earliest {instants : List Instant} (h : earliest instants = some t) :
    ∀ t' ∈ instants, t ≤ t' := by
  cases instants with
  | nil => cases h
  | cons first rest =>
    cases h
    exact foldl_min_le rest first

/-- The earliest of the first instants of some sets is the first of them all. -/
theorem least_earliest {α : Type} {f : α → Option Instant} {R : α → Instant → Prop} {l : List α}
    (h : ∀ a ∈ l, Least (R a) (f a)) :
    Least (fun t => ∃ a ∈ l, R a t) (earliest (l.filterMap f)) := by
  cases hearliest : earliest (l.filterMap f) with
  | none =>
    have hempty : l.filterMap f = [] := by
      cases hlist : l.filterMap f with
      | nil => rfl
      | cons first rest =>
        rw [hlist] at hearliest
        cases hearliest
    rintro t ⟨a, ha, ht⟩
    have hfirst := h a ha
    rw [List.filterMap_eq_nil_iff.1 hempty a ha] at hfirst
    exact hfirst t ht
  | some first =>
    constructor
    · obtain ⟨a, ha, hfirst⟩ := List.mem_filterMap.1 (mem_of_earliest hearliest)
      have hleast := h a ha
      rw [hfirst] at hleast
      exact ⟨a, ha, hleast.1⟩
    · rintro t ⟨a, ha, ht⟩
      have hleast := h a ha
      cases hfirst : f a with
      | none =>
        rw [hfirst] at hleast
        exact absurd ht (hleast t)
      | some t' =>
        rw [hfirst] at hleast
        -- not before the first of its set, which is not before the earliest
        have hmem : t' ∈ l.filterMap f := List.mem_filterMap.2 ⟨a, ha, hfirst⟩
        exact Int.le_trans (le_of_earliest hearliest t' hmem) (hleast.2 t ht)

end CronTrigger

end Least

/-! ## From wall time to instants -/

namespace Pattern

variable {p : Pattern} {z : Zone} {t reference : Instant}

/-- The instant is a whole second, its local time occurs once, and the pattern allows it. -/
structure Due (p : Pattern) (z : Zone) (t : Instant) : Prop where
  whole : t.subsecond = 0
  once : ∀ second, z.wallSeconds second = z.wallSeconds t.seconds → second = t.seconds
  fits : p.Fits (z.reading t)

theorem seconds_ofSeconds (s : Int) : (Instant.ofSeconds s).seconds = s := by
  show s * nanosPerSecond / nanosPerSecond = s
  unfold nanosPerSecond
  omega

/-- A whole second is later than an instant if it is not before the next second begins. -/
theorem lt_iff_seconds (h : t.subsecond = 0) :
    reference < t ↔ (Instant.mk (reference.nanos + nanosPerSecond)).seconds ≤ t.seconds := by
  unfold Instant.subsecond at h
  show reference.nanos < t.nanos ↔ (reference.nanos + nanosPerSecond) / nanosPerSecond ≤
    t.nanos / nanosPerSecond
  unfold nanosPerSecond at *
  omega

/-- An instant that is due is the one at which clocks show its local time. -/
theorem Due.once? (h : p.Due z t) : z.once? (z.reading t).seconds = some t.seconds := by
  rw [Zone.reading, WallTime.seconds_ofSeconds]
  exact Zone.once?_eq_some_iff.2 ⟨rfl, h.once⟩

/-- The first time that the pattern allows from a second after the reference on is shown at the
    first instant after it that is due. -/
theorem least_firstFrom (hz : z.Regular) (hp : p.WellFormed)
    (hyear : 1970 ≤ (z.reading reference).date.year) :
    Least (fun t => reference < t ∧ p.Due z t)
      ((p.firstFrom z (z.reading ⟨reference.nanos + nanosPerSecond⟩)).map Instant.ofSeconds) := by
  generalize hstart : (Instant.mk (reference.nanos + nanosPerSecond)).seconds = start
  have hreading : z.reading ⟨reference.nanos + nanosPerSecond⟩ =
      .ofSeconds (z.wallSeconds start) := by
    rw [Zone.reading, hstart]
  have hlater : reference.seconds ≤ start := by
    rw [← hstart]
    show reference.nanos / nanosPerSecond ≤ (reference.nanos + nanosPerSecond) / nanosPerSecond
    unfold nanosPerSecond
    omega
  have hbound : firstYear ≤ (WallTime.ofSeconds (z.wallSeconds start)).date.year :=
    (WallTime.epochYear_le_iff _).2 (hz.epoch _ _ hlater ((WallTime.epochYear_le_iff _).1 hyear))
  have hfinds := finds_firstFrom (z := z) hp
    (WallTime.exists_ofSeconds (z.wallSeconds start)) hbound
  rw [hreading]
  rw [WallTime.seconds_ofSeconds] at hfinds
  -- an instant that is due after the reference has its time in the set that is searched
  have hsearched : ∀ t, reference < t → p.Due z t →
      z.wallSeconds start ≤ (z.reading t).seconds := by
    intro t hlt hdue
    have hle := (lt_iff_seconds hdue.whole).1 hlt
    rw [hstart] at hle
    exact (hz.le_iff hdue.once? start).1 hle
  cases hfound : p.firstFrom z (.ofSeconds (z.wallSeconds start)) with
  | none =>
    rw [hfound] at hfinds
    rintro t ⟨hlt, hdue⟩
    have hnone := hfinds _ ⟨z.reading t, hdue.fits, rfl, hsearched t hlt hdue⟩
    rw [hdue.once?] at hnone
    cases hnone
  | some second =>
    rw [hfound] at hfinds
    obtain ⟨wall, ⟨w, hfits, rfl, hle⟩, honce, hleast⟩ := hfinds
    have hwall := Zone.wallSeconds_of_once? honce
    have hshown : z.reading (.ofSeconds second) = w := by
      rw [Zone.reading, seconds_ofSeconds, hwall, WallTime.ofSeconds_seconds hfits.exact]
    have hwhole : (Instant.ofSeconds second).subsecond = 0 := by
      show (second * nanosPerSecond % nanosPerSecond).toNat = 0
      unfold nanosPerSecond
      omega
    refine ⟨⟨?_, hwhole, ?_, hshown ▸ hfits⟩, ?_⟩
    · rw [lt_iff_seconds hwhole, hstart, seconds_ofSeconds]
      exact (hz.le_iff honce start).2 hle
    · intro other hother
      rw [seconds_ofSeconds, hwall] at hother
      rw [seconds_ofSeconds]
      exact Zone.eq_of_once? honce hother
    · rintro t ⟨hlt, hdue⟩
      by_contra hnot
      -- an earlier instant would show an earlier time, and the search would have found that
      have hbefore : t.seconds < second := by
        have hnanos : t.nanos < second * nanosPerSecond := Int.not_le.1 hnot
        show t.nanos / nanosPerSecond < second
        unfold nanosPerSecond at *
        omega
      have hearlier := (hz.lt_iff honce t.seconds).1 hbefore
      have hseconds : (z.reading t).seconds = z.wallSeconds t.seconds :=
        WallTime.seconds_ofSeconds _
      have hnone := hleast _ (hseconds ▸ hearlier) ⟨z.reading t, hdue.fits, rfl,
        hsearched t hlt hdue⟩
      rw [hdue.once?] at hnone
      cases hnone

end Pattern

/-! ## The rule about days -/

section Days

variable {c : CronTrigger} {zone : Zone} {fields : Place → List Char} {parts : Place → List Part}

/-- The expression allows the date: when neither field of days starts with a star, one of them does;
    otherwise both do. -/
def AllowsDay (fields : Place → List Char) (parts : Place → List Part) (date : Date) : Prop :=
  if RestrictsBothDays fields then Allows parts .day date.day ∨ Allows parts .weekday date.weekday
  else Allows parts .day date.day ∧ Allows parts .weekday date.weekday

/-- The expression allows the whole minute that clocks show. -/
structure AllowsTime (fields : Place → List Char) (parts : Place → List Part)
    (w : WallTime) : Prop where
  second : w.second = 0
  year : w.date.year ≤ 2100
  minute : Allows parts .minute w.minute
  hour : Allows parts .hour w.hour
  month : Allows parts .month w.date.month
  day : AllowsDay fields parts w.date

/-- There are seven days of the week. -/
theorem weekday_le (d : Date) : d.weekday ≤ 6 := by
  unfold Date.weekday
  omega

theorem day_le {d : Date} (h : d.isValid = true) : d.day ≤ 31 := by
  obtain ⟨-, -, -, hday⟩ := of_decide_eq_true h
  have hlength : monthLength d.year d.month ≤ 31 := by
    unfold monthLength
    split
    · split <;> decide
    all_goals decide
  exact Nat.le_trans hday hlength

/-- A pattern allows the dates whose month and both kinds of days it has. -/
theorem Pattern.allowsDate_iff {p : Pattern} {allowed : Place → Nat → Prop}
    (hp : p.Has allowed) {d : Date} :
    p.allowsDate d = true ↔ allowed .month d.month ∧ allowed .day d.day ∧
    allowed .weekday d.weekday := by
  unfold Pattern.allowsDate
  rw [Bool.and_eq_true, Bool.and_eq_true, List.contains_iff_mem, List.contains_iff_mem,
    List.contains_iff_mem, and_assoc]
  exact and_congr (hp .month _) (and_congr (hp .day _) (hp .weekday _))

/-- A pattern fits the whole minutes that it has, up to the year 2100. -/
theorem Pattern.fits_iff {p : Pattern} {allowed : Place → Nat → Prop}
    (hp : p.Has allowed) {w : WallTime} (hw : w.Exists) :
    p.Fits w ↔ w.second = 0 ∧ w.date.year ≤ 2100 ∧ allowed .minute w.minute ∧ allowed .hour w.hour ∧
      allowed .month w.date.month ∧ allowed .day w.date.day ∧ allowed .weekday w.date.weekday := by
  constructor
  · rintro ⟨-, hyear, hdate, hhour, hminute, hsecond⟩
    exact ⟨hsecond, hyear, (hp .minute _).1 hminute, (hp .hour _).1 hhour,
      (allowsDate_iff hp).1 hdate⟩
  · rintro ⟨hsecond, hyear, hminute, hhour, hdate⟩
    exact ⟨hw, hyear, (allowsDate_iff hp).2 hdate, (hp .hour _).2 hhour,
      (hp .minute _).2 hminute, hsecond⟩

/-- The patterns of a trigger together allow what the expression allows. -/
theorem CronTrigger.Carries.exists_fits_iff (h : c.Carries zone fields parts) {w : WallTime}
    (hw : w.Exists) :
    (∃ p ∈ c.patterns, p.Fits w) ↔ AllowsTime fields parts w := by
  by_cases hboth : RestrictsBothDays fields
  -- a day of the month with any day of the week, or the other way round
  · obtain ⟨p, q, hpatterns, hp, hq⟩ := h.double hboth
    have hday : AllowsBut .day parts .day w.date.day := ⟨Date.one_le_day hw.date, day_le hw.date⟩
    have hweekday : AllowsBut .weekday parts .weekday w.date.weekday :=
      ⟨Nat.zero_le _, weekday_le _⟩
    constructor
    · rintro ⟨found, hmem, hfits⟩
      rw [hpatterns, List.mem_cons, List.mem_singleton] at hmem
      rcases hmem with rfl | rfl
      · obtain ⟨hsecond, hyear, hminute, hhour, hmonth, hallowed, -⟩ :=
          (Pattern.fits_iff hp hw).1 hfits
        refine ⟨hsecond, hyear, hminute, hhour, hmonth, ?_⟩
        unfold AllowsDay
        rw [if_pos hboth]
        exact .inl hallowed
      · obtain ⟨hsecond, hyear, hminute, hhour, hmonth, -, hallowed⟩ :=
          (Pattern.fits_iff hq hw).1 hfits
        refine ⟨hsecond, hyear, hminute, hhour, hmonth, ?_⟩
        unfold AllowsDay
        rw [if_pos hboth]
        exact .inr hallowed
    · rintro ⟨hsecond, hyear, hminute, hhour, hmonth, hallowed⟩
      unfold AllowsDay at hallowed
      rw [if_pos hboth] at hallowed
      rw [hpatterns]
      rcases hallowed with hallowed | hallowed
      · exact ⟨p, by simp, (Pattern.fits_iff hp hw).2 ⟨hsecond, hyear, hminute, hhour, hmonth,
          hallowed, hweekday⟩⟩
      · exact ⟨q, by simp, (Pattern.fits_iff hq hw).2 ⟨hsecond, hyear, hminute, hhour,
          hmonth, hday, hallowed⟩⟩
  · obtain ⟨p, hpatterns, hp⟩ := h.single hboth
    rw [hpatterns]
    simp only [List.mem_singleton, exists_eq_left, Pattern.fits_iff hp hw]
    constructor
    · rintro ⟨hsecond, hyear, hminute, hhour, hmonth, hday, hweekday⟩
      refine ⟨hsecond, hyear, hminute, hhour, hmonth, ?_⟩
      unfold AllowsDay
      rw [if_neg hboth]
      exact ⟨hday, hweekday⟩
    · rintro ⟨hsecond, hyear, hminute, hhour, hmonth, hallowed⟩
      unfold AllowsDay at hallowed
      rw [if_neg hboth] at hallowed
      exact ⟨hsecond, hyear, hminute, hhour, hmonth, hallowed⟩

end Days

/-! ## Fire times -/

/-- The instant matches the expression: it is a whole second, its local time occurs once, and the
    expression allows it. -/
structure Matches (zone : Zone) (fields : Place → List Char) (parts : Place → List Part)
    (t : Instant) : Prop where
  whole : t.subsecond = 0
  once : ∀ second, zone.wallSeconds second = zone.wallSeconds t.seconds → second = t.seconds
  time : AllowsTime fields parts (zone.reading t)

/-- The instant after which the next fire time is sought: the later of the last one and now. -/
def reference (previous : Option Instant) (now : Instant) : Instant :=
  match previous with
  | some before => max before now
  | none => now

/-- The answer to a question is the first instant after the reference that matches. -/
theorem least_nextAfter? {c : CronTrigger} {zone : Zone} {fields : Place → List Char}
    {parts : Place → List Part} (hzone : zone.Regular) (hcarries : c.Carries zone fields parts)
    {after : Instant} (hyear : 1970 ≤ (zone.reading after).date.year) :
    Least (fun t => after < t ∧ Matches zone fields parts t) (c.nextAfter? after) := by
  unfold CronTrigger.nextAfter?
  simp only [hcarries.zone]
  refine (CronTrigger.least_earliest fun p hp =>
    Pattern.least_firstFrom hzone (hcarries.wellFormed p hp) hyear).congr (fun t => ?_)
  have hexists := hcarries.exists_fits_iff (WallTime.exists_ofSeconds (zone.wallSeconds t.seconds))
  constructor
  · rintro ⟨hlt, hwhole, honce, htime⟩
    obtain ⟨p, hp, hfits⟩ := hexists.2 htime
    exact ⟨p, hp, hlt, hwhole, honce, hfits⟩
  · rintro ⟨p, hp, hlt, hwhole, honce, hfits⟩
    exact ⟨hlt, hwhole, honce, hexists.1 ⟨p, hp, hfits⟩⟩

/-- A cron expression fires at the earliest instant after the reference that matches it, and there
    is no next fire time just when no such instant is left: in a regular zone, from 1970 on by its
    clocks. -/
theorem next?_earliest {expression : String} {zone : Zone} {c : CronTrigger} (hzone : zone.Regular)
    (hparse : CronTrigger.parse expression zone = .ok c) :
    ∃ fields parts, Reads expression fields parts ∧
      ∀ previous now, 1970 ≤ (zone.reading (reference previous now)).date.year →
        (∀ t, (Trigger.cron c).next? previous now = some t ↔
          (reference previous now < t ∧ Matches zone fields parts t) ∧
            ∀ t', reference previous now < t' ∧ Matches zone fields parts t' → t ≤ t') ∧
        ((Trigger.cron c).next? previous now = none ↔
          ∀ t, ¬ (reference previous now < t ∧ Matches zone fields parts t)) := by
  obtain ⟨fields, parts, hreads, rfl⟩ := parse_eq_ok_iff.1 hparse
  refine ⟨fields, parts, hreads, fun previous now hyear => ?_⟩
  have hleast := least_nextAfter? hzone (carries_triggerOf hreads.field) hyear
  have hnext : (Trigger.cron (triggerOf zone fields parts)).next? previous now =
      (triggerOf zone fields parts).nextAfter? (reference previous now) := by
    cases previous <;> rfl
  rw [hnext]
  exact ⟨fun t => hleast.eq_some_iff, hleast.eq_none_iff⟩

/-- New York in 2024: clocks are set forward on 10 March and back on 3 November. -/
def newYork : Zone := ⟨"America/New_York", -18000, [⟨1710054000, -14400⟩, ⟨1730613600, -18000⟩]⟩

/-- Half past two every night. -/
def halfPastTwo : CronTrigger where
  minute := "30"
  hour := "2"
  day := "*"
  month := "*"
  weekday := "*"
  zone := newYork
  patterns := [⟨[30], [2], Place.day.values, Place.month.values, Place.weekday.values⟩]

/-- Clocks in New York are set by an hour. -/
theorem steady_newYork : newYork.Steady 3600 := by
  constructor
  · decide +kernel
  · decide +kernel
  · decide
  · decide

/-- Half past two every night, as an expression. -/
theorem parse_halfPastTwo : CronTrigger.parse "30 2 * * *" newYork = .ok halfPastTwo := by
  rfl

/-- In the night in which clocks skip half past two the job does not fire: after noon on 9 March it
    fires on 11 March. -/
theorem next?_earliest_newYork : ∃ fields parts, Reads "30 2 * * *" fields parts ∧
    (Instant.ofSeconds 1710003600 < Instant.ofSeconds 1710138600 ∧
      Matches newYork fields parts (Instant.ofSeconds 1710138600)) ∧
    ∀ t', Instant.ofSeconds 1710003600 < t' ∧ Matches newYork fields parts t' →
    Instant.ofSeconds 1710138600 ≤ t' := by
  obtain ⟨fields, parts, hreads, hnext⟩ := next?_earliest steady_newYork.regular parse_halfPastTwo
  refine ⟨fields, parts, hreads, ?_⟩
  exact ((hnext none (Instant.ofSeconds 1710003600) (by decide +kernel)).1 _).1 (by decide +kernel)

end Schedule

end JobFleet
