/-
  JobFleet.Proofs.Time.Timestamp: an instant is read back from the timestamp written for it.

  The timestamp gives a date and a time of day in UTC.  Numbers stand in their full width and the
  year may have more than four digits, then with a sign; so each part ends where the reader expects
  it to end, and the fraction is written in as many digits as it is read from.

  Main results:
    * `read?_write` — every instant of the calendar is read back.
    * `inCalendar_of_read?` — what is read lies in the calendar.
-/
import JobFleet.Proofs.Text.Numerals
import JobFleet.Proofs.Time.Calendar
import JobFleet.Time.Timestamp

namespace JobFleet.Time

open JobFleet.Text

/-! ## The years of the calendar -/

namespace Instant

/-- An instant is its whole seconds and what is left. -/
theorem nanos_eq (t : Instant) : t.nanos = t.seconds * nanosPerSecond + t.subsecond := by
  unfold seconds subsecond nanosPerSecond
  omega

/-- What is left is less than a second. -/
theorem subsecond_lt (t : Instant) : t.subsecond < 1000000000 := by
  unfold subsecond nanosPerSecond
  omega

/-- The date of an instant of the calendar lies in the years of the calendar. -/
theorem year_of_inCalendar {t : Instant} (h : t.inCalendar = true) :
    firstYear ≤ (WallTime.ofSeconds t.seconds).date.year ∧
    (WallTime.ofSeconds t.seconds).date.year ≤ lastYear := by
  have hvalid := (WallTime.exists_ofSeconds t.seconds).date
  have hday : (WallTime.ofSeconds t.seconds).date.dayNumber = t.seconds / secondsPerDay :=
    Date.dayNumber_ofDayNumber _
  obtain ⟨hearliest, hlatest⟩ :
    (Date.mk firstYear 1 1).dayNumber * secondsPerDay * nanosPerSecond ≤ t.nanos ∧
      t.nanos ≤ (Date.mk (lastYear + 1) 1 1).dayNumber * secondsPerDay * nanosPerSecond - 1 :=
      of_decide_eq_true h
  have hseconds := t.nanos_eq
  have hsubsecond := t.subsecond_lt
  -- a date is in or after a year exactly if it does not come before the first day of that year
  constructor
  · rw [Date.year_le_iff hvalid, hday]
    unfold nanosPerSecond secondsPerDay at *
    omega
  · rw [← Int.lt_add_one_iff, ← Int.not_le, Date.year_le_iff hvalid, hday]
    unfold nanosPerSecond secondsPerDay at *
    omega

end Instant

namespace Timestamp

/-! ## Numbers -/

/-- A text that begins with no digit. -/
def NoDigit (rest : List Char) : Prop := ∀ c ∈ rest.head?, isDigit c = false

theorem trimStart_of_head {c : Char} (h : isBlank c = false) (rest : List Char) :
    trimStart (c :: rest) = c :: rest := by
  unfold trimStart
  rw [List.dropWhile_cons_of_neg (by simp [h])]

/-- A run of digits goes up to the next character that is none. -/
theorem digitRun_append {run rest : List Char} (hrun : ∀ c ∈ run, isDigit c = true)
    (hrest : NoDigit rest) {width : Nat} (hwidth : run.length ≤ width) :
    digitRun width (run ++ rest) = (run, rest) := by
  have hstop : rest.takeWhile isDigit = [] := by
    cases rest with
    | nil => rfl
    | cons c rest => rw [List.takeWhile_cons_of_neg (by simp [hrest c rfl])]
  unfold digitRun
  rw [List.takeWhile_append_of_pos hrun, hstop, List.append_nil, List.take_of_length_le hwidth]
  exact congrArg (run, ·) List.drop_left

/-- Digits of a number with zeros before them are read as the number. -/
theorem number?_padded {width n : Nat} (hwidth : 0 < width) (hn : n < Nat.pow 10 width)
    {rest : List Char} (hrest : NoDigit rest) :
    number? width ((padded width n).toList ++ rest) = some (n, rest) := by
  have hlength := length_padded hwidth hn
  obtain ⟨c, cs, hcs⟩ := List.exists_cons_of_length_pos (hlength.symm ▸ hwidth)
  have hc : isBlank c = false :=
    isBlank_of_isDigit (isDigit_of_mem_padded (hcs ▸ List.mem_cons_self))
  have htrim : trimStart ((padded width n).toList ++ rest) = (padded width n).toList ++ rest := by
    rw [hcs, List.cons_append, trimStart_of_head hc]
  unfold number?
  rw [htrim, digitRun_append (fun _ => isDigit_of_mem_padded) hrest hlength.le]
  simp only [readNat?_padded, Option.map_some]

theorem noDigit_cons {c : Char} (h : isDigit c = false) (rest : List Char) :
    NoDigit (c :: rest) := by
  intro d hd
  exact Option.some.inj hd ▸ h

/-! ## The parts of a timestamp -/

/-- A year with a minus sign is read with all its digits. -/
theorem year?_minus (cs : List Char) : year? ('-' :: cs) =
    (readNat? (digitRun cs.length cs).1).map (fun n : Nat =>
      (-(n : Int), (digitRun cs.length cs).2)) := by
  unfold year?
  rw [trimStart_of_head (by decide)]
  show Option.map _ ((readNat? (digitRun cs.length cs).1).bind _) = _
  cases readNat? (digitRun cs.length cs).1 <;> rfl

theorem year?_plus (cs : List Char) : year? ('+' :: cs) =
    (readNat? (digitRun cs.length cs).1).map (fun n : Nat =>
      ((n : Int), (digitRun cs.length cs).2)) := by
  unfold year?
  rw [trimStart_of_head (by decide)]
  show Option.map _ ((readNat? (digitRun cs.length cs).1).bind _) = _
  cases readNat? (digitRun cs.length cs).1 <;> rfl

/-- A year without a sign has four digits. -/
theorem year?_digit {c : Char} (h : isDigit c = true) (cs : List Char) :
    year? (c :: cs) = (number? 4 (c :: cs)).map (fun r => ((r.1 : Int), r.2)) := by
  unfold year?
  rw [trimStart_of_head (isBlank_of_isDigit h)]
  split
  · next heq =>
    obtain ⟨rfl, -⟩ := List.cons.inj heq
    exact absurd h (by decide)
  · next heq =>
    obtain ⟨rfl, -⟩ := List.cons.inj heq
    exact absurd h (by decide)
  · rfl

/-- A year is read back, with its sign or without. -/
theorem year?_yearText (year : Int) {rest : List Char} (hrest : NoDigit rest) :
    year? ((yearText year).toList ++ rest) = some (year, rest) := by
  have hrun : digitRun ((padded 4 year.natAbs).toList ++ rest).length
    ((padded 4 year.natAbs).toList ++ rest) =
      ((padded 4 year.natAbs).toList, rest) :=
    digitRun_append (fun _ => isDigit_of_mem_padded) hrest (by simp)
  unfold yearText
  split
  · next hplain =>
    have hsmall : year.natAbs < 10000 := by omega
    have hnumber : number? 4 ((padded 4 year.natAbs).toList ++ rest) = some (year.natAbs, rest) :=
      number?_padded (by decide) hsmall hrest
    have hpos : 0 < (padded 4 year.natAbs).toList.length :=
      Nat.lt_of_lt_of_le (by decide : 0 < 4) (le_length_padded 4 year.natAbs)
    obtain ⟨c, cs, hcs⟩ := List.exists_cons_of_length_pos hpos
    have hc : isDigit c = true := isDigit_of_mem_padded (hcs ▸ List.mem_cons_self)
    have hyear : ((year.natAbs : Nat) : Int) = year := by omega
    rw [hcs, List.cons_append] at hnumber ⊢
    rw [year?_digit hc, hnumber, Option.map_some, hyear]
  · next hlong =>
    split
    · next hnegative =>
      have hsign : ("-" ++ padded 4 year.natAbs).toList ++ rest =
          '-' :: ((padded 4 year.natAbs).toList ++ rest) := by simp
      have hyear : -((year.natAbs : Nat) : Int) = year := by omega
      rw [hsign, year?_minus, hrun, readNat?_padded, Option.map_some, hyear]
    · next hpositive =>
      have hsign : ("+" ++ padded 4 year.natAbs).toList ++ rest =
          '+' :: ((padded 4 year.natAbs).toList ++ rest) := by simp
      have hyear : ((year.natAbs : Nat) : Int) = year := by omega
      rw [hsign, year?_plus, hrun, readNat?_padded, Option.map_some, hyear]

/-- The fraction of a second is read back. -/
theorem fraction?_fractionText {nanos : Nat} (h : nanos < 1000000000) :
    fraction? ((fractionText nanos).toList ++ ['Z']) = some (nanos, ['Z']) := by
  have hdigits : ∀ {width n : Nat}, 0 < width → width ≤ 9 → n < 10 ^ width →
      fraction? (("." ++ padded width n).toList ++ ['Z']) = some (n * 10 ^ (9 - width), ['Z']) := by
    intro width n hpos hwidth hn
    have hpoint : ("." ++ padded width n).toList ++ ['Z'] =
        '.' :: ((padded width n).toList ++ ['Z']) := by simp
    have hlength := length_padded hpos hn
    have hrun : digitRun 9 ((padded width n).toList ++ ['Z']) = ((padded width n).toList, ['Z']) :=
      digitRun_append (fun _ => isDigit_of_mem_padded) (noDigit_cons (by decide) []) (by omega)
    rw [hpoint]
    unfold fraction?
    simp only [hrun, readNat?_padded, Option.map_some, hlength]
    rfl
  unfold fractionText
  split
  · next hzero =>
    subst hzero
    rfl
  · split
    · next hmillis =>
      rw [hdigits (by decide) (by decide) (by omega)]
      congr 2
      omega
    · split
      · next hmicros =>
        rw [hdigits (by decide) (by decide) (by omega)]
        congr 2
        omega
      · rw [hdigits (by decide) (by decide) (by omega), Nat.sub_self, Nat.pow_zero, Nat.mul_one]

/-- A timestamp is its date, its time with a fraction, and the letter of UTC. -/
theorem toList_write (t : Instant) : (write t).toList =
    let wall := WallTime.ofSeconds t.seconds
    (yearText wall.date.year).toList ++ '-' ::
      ((padded 2 wall.date.month).toList ++ '-' :: ((padded 2 wall.date.day).toList ++
      'T' :: ((padded 2 wall.hour).toList ++ ':' ::
        ((padded 2 wall.minute).toList ++ ':' :: ((padded 2 wall.second).toList ++
        ((fractionText t.subsecond).toList ++ ['Z'])))))) := by
  simp [write, dateText, timeText]

/-! ## Reading back -/

/-- What follows the seconds does not start with a digit. -/
theorem noDigit_fractionText (nanos : Nat) : NoDigit ((fractionText nanos).toList ++ ['Z']) := by
  have hpoint : ∀ digits : String, NoDigit (("." ++ digits).toList ++ ['Z']) := by
    intro digits
    rw [String.toList_append]
    exact noDigit_cons (by decide) _
  unfold fractionText
  split
  · exact noDigit_cons (by decide) []
  · split
    · exact hpoint _
    · split <;> exact hpoint _

theorem monthLength_le (year : Int) (month : Nat) : monthLength year month ≤ 31 := by
  unfold monthLength
  split <;> try omega
  split <;> omega

theorem expect_trimStart {c : Char} (h : isBlank c = false) (rest : List Char) :
    expect c (trimStart (c :: rest)) = some rest := by
  rw [trimStart_of_head h]
  exact if_pos rfl

/-- **A timestamp is read back.** -/
theorem read?_write {t : Instant} (h : t.inCalendar = true) : read? (write t) = some t := by
  obtain ⟨hdate, hhour, hminute, hsecond⟩ := WallTime.exists_ofSeconds t.seconds
  obtain ⟨hfirst, hlast⟩ := Instant.year_of_inCalendar h
  have hwall := WallTime.seconds_ofSeconds t.seconds
  have htext := toList_write t
  generalize WallTime.ofSeconds t.seconds =
    wall at hdate hhour hminute hsecond hfirst hlast hwall htext
  obtain ⟨hmonth, hmonth', hday, hday'⟩ := of_decide_eq_true hdate
  have hmonthLength : monthLength wall.date.year wall.date.month ≤ 31 := monthLength_le _ _
  have hdash : ∀ rest, NoDigit ('-' :: rest) := noDigit_cons (by decide)
  have hT : ∀ rest, NoDigit ('T' :: rest) := noDigit_cons (by decide)
  have hcolon : ∀ rest, NoDigit (':' :: rest) := noDigit_cons (by decide)
  have htwo : ∀ {n : Nat} {rest : List Char}, n < 100 → NoDigit rest →
      number? 2 ((padded 2 n).toList ++ rest) = some (n, rest) :=
    fun hn hrest => number?_padded (by decide) hn hrest
  unfold read?
  rw [htext]
  -- one step for each part of the text; each leaves what follows that part
  refine Option.bind_eq_some_iff.mpr ⟨_, year?_yearText _ (hdash _), ?_⟩
  refine Option.bind_eq_some_iff.mpr ⟨_, expect_trimStart (by decide) _, ?_⟩
  refine Option.bind_eq_some_iff.mpr ⟨_, htwo (by omega) (hdash _), ?_⟩
  refine Option.bind_eq_some_iff.mpr ⟨_, expect_trimStart (by decide) _, ?_⟩
  refine Option.bind_eq_some_iff.mpr ⟨_, htwo (by omega) (hT _), ?_⟩
  refine Option.bind_eq_some_iff.mpr ⟨_, rfl, ?_⟩
  refine Option.bind_eq_some_iff.mpr ⟨_, htwo (by omega) (hcolon _), ?_⟩
  refine Option.bind_eq_some_iff.mpr ⟨_, expect_trimStart (by decide) _, ?_⟩
  refine Option.bind_eq_some_iff.mpr ⟨_, htwo (by omega) (hcolon _), ?_⟩
  refine Option.bind_eq_some_iff.mpr ⟨_, expect_trimStart (by decide) _, ?_⟩
  refine Option.bind_eq_some_iff.mpr ⟨_, htwo (by omega) (noDigit_fractionText t.subsecond), ?_⟩
  refine Option.bind_eq_some_iff.mpr ⟨_, fraction?_fractionText t.subsecond_lt, ?_⟩
  have hoffset : offset? (trimStart ['Z']) = some (0, []) := rfl
  refine Option.bind_eq_some_iff.mpr ⟨_, hoffset, ?_⟩
  refine (if_pos ⟨rfl, hdate, hhour, hminute, hsecond, hfirst, hlast⟩).trans
    (Instant.later?_eq_some.mpr ⟨?_, h⟩)
  show t.nanos = (wall.seconds - 0) * nanosPerSecond + t.subsecond
  rw [hwall, Int.sub_zero]
  exact t.nanos_eq

/-- What is read from a timestamp lies in the calendar. -/
theorem inCalendar_of_read? {s : String} {t : Instant} (h : read? s = some t) :
    t.inCalendar = true := by
  unfold read? at h
  obtain ⟨⟨year, _⟩, -, h⟩ := Option.bind_eq_some_iff.mp h
  obtain ⟨_, -, h⟩ := Option.bind_eq_some_iff.mp h
  obtain ⟨⟨month, _⟩, -, h⟩ := Option.bind_eq_some_iff.mp h
  obtain ⟨_, -, h⟩ := Option.bind_eq_some_iff.mp h
  obtain ⟨⟨day, _⟩, -, h⟩ := Option.bind_eq_some_iff.mp h
  dsimp only at h
  split at h
  case h_4 => exact nomatch h
  -- whichever of the three separators it is, the rest is read in one way
  case h_1 | h_2 | h_3 =>
    obtain ⟨_, -, h⟩ := Option.bind_eq_some_iff.mp h
    obtain ⟨⟨hour, _⟩, -, h⟩ := Option.bind_eq_some_iff.mp h
    obtain ⟨_, -, h⟩ := Option.bind_eq_some_iff.mp h
    obtain ⟨⟨minute, _⟩, -, h⟩ := Option.bind_eq_some_iff.mp h
    obtain ⟨_, -, h⟩ := Option.bind_eq_some_iff.mp h
    obtain ⟨⟨second, _⟩, -, h⟩ := Option.bind_eq_some_iff.mp h
    obtain ⟨⟨nanos, _⟩, -, h⟩ := Option.bind_eq_some_iff.mp h
    obtain ⟨⟨offset, _⟩, -, h⟩ := Option.bind_eq_some_iff.mp h
    dsimp only at h
    split at h
    · exact (Instant.later?_eq_some.mp h).2
    · contradiction

end Timestamp

end JobFleet.Time
