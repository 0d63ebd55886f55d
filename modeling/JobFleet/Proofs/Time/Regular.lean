/-
  JobFleet.Proofs.Time.Regular: zones in which a time that clocks show once divides the times before
  from those after.

  Around a clock change some times are shown twice or never.  A time that clocks show once lies
  clear of the changes: before it they have shown only earlier times, after it they show only later
  ones.  And no clock goes back behind the start of 1970 once it has passed it.

  Main results:
    * `once?_eq_some_iff` — the search for a time that is shown once finds it.
    * `Regular.lt_iff` — such times come in the order in which clocks show them.
    * `regular_of_mem_tabledZones` — every zone of the table is regular.
-/
import JobFleet.Proofs.Time.Orderly

namespace JobFleet.Time

/-! ## Times that are shown once -/

theorem nodup_eraseDups (l : List Int) : l.eraseDups.Nodup := by
  generalize hlength : l.length = length
  induction length using Nat.strongRecOn generalizing l with
  | ind length ih =>
    cases l with
    | nil => exact List.nodup_nil
    | cons a rest =>
      rw [List.eraseDups_cons, List.nodup_cons]
      have hshorter : (rest.filter (fun b => !b == a)).length < length := by
        have hle := List.length_filter_le (fun b => !b == a) rest
        rw [List.length_cons] at hlength
        omega
      refine ⟨?_, ih _ hshorter _ rfl⟩
      rw [List.mem_eraseDups, List.mem_filter]
      simp

namespace Zone

variable {z : Zone} {wall second : Int}

theorem nodup_occurrences (z : Zone) (wall : Int) : (z.occurrences wall).Nodup := by
  unfold occurrences
  refine List.Pairwise.filter _ (List.pairwise_map.2 ?_)
  refine (nodup_eraseDups _).imp ?_
  intro a b hne heq
  exact hne (by omega)

/-- What is found is the only second at which clocks show the time. -/
theorem once?_eq_some_iff :
    z.once? wall = some second ↔ z.wallSeconds second = wall ∧ ∀ other, z.wallSeconds other = wall →
    other = second := by
  constructor
  · exact fun h => ⟨wallSeconds_of_once? h, fun other hother => eq_of_once? h hother⟩
  · rintro ⟨hwall, hunique⟩
    have hmem := mem_occurrences.2 hwall
    have hall : ∀ other ∈ z.occurrences wall, other = second :=
      fun other hother => hunique other (mem_occurrences.1 hother)
    have honly : z.occurrences wall = [second] := by
      have hnodup := nodup_occurrences z wall
      match hlist : z.occurrences wall with
      | [] =>
        rw [hlist] at hmem
        exact absurd hmem List.not_mem_nil
      | [first] =>
        rw [hlist] at hall
        rw [hall first (List.mem_singleton.2 rfl)]
      | first :: next :: rest =>
        rw [hlist] at hall hnodup
        have hfirst := hall first List.mem_cons_self
        have hnext := hall next (List.mem_cons_of_mem _ List.mem_cons_self)
        rw [List.nodup_cons, hfirst, hnext] at hnodup
        exact absurd List.mem_cons_self hnodup.1
    unfold once?
    rw [honly]

/-! ## Regular zones -/

/-- A time that clocks show once divides earlier from later times, and clocks do not go back behind
    the start of 1970. -/
structure Regular (z : Zone) : Prop where
  before : ∀ wall second, z.once? wall = some second →
    ∀ earlier < second, z.wallSeconds earlier < wall
  after : ∀ wall second, z.once? wall = some second → ∀ later > second, wall < z.wallSeconds later
  epoch : ∀ second later, second ≤ later → 0 ≤ z.wallSeconds second → 0 ≤ z.wallSeconds later

/-- A second comes before one whose time is shown once just when clocks show an earlier time at
    it. -/
theorem Regular.lt_iff (hz : z.Regular) (h : z.once? wall = some second) (other : Int) :
    other < second ↔ z.wallSeconds other < wall := by
  constructor
  · exact hz.before wall second h other
  · intro hlt
    rcases Int.lt_trichotomy other second with hbefore | rfl | hafter
    · exact hbefore
    · rw [wallSeconds_of_once? h] at hlt
      exact absurd hlt (Int.lt_irrefl _)
    · have hlater := hz.after wall second h other hafter
      omega

/-- It comes no earlier than a second at which clocks show no later a time. -/
theorem Regular.le_iff (hz : z.Regular) (h : z.once? wall = some second) (other : Int) :
    other ≤ second ↔ z.wallSeconds other ≤ wall := by
  rcases Int.lt_trichotomy other second with hbefore | rfl | hafter
  · have hlt := hz.before wall second h other hbefore
    omega
  · rw [wallSeconds_of_once? h]
    omega
  · have hlt := hz.after wall second h other hafter
    omega

/-! ## Steady zones -/

/-- Clocks that are set by no more than the time between two changes show earlier times before a
    time that they show once. -/
theorem Steady.lt_of_once? {gap : Int} (hz : z.Steady gap)
    (honce : z.once? wall = some second) {earlier : Int} (hlt : earlier < second) :
    z.wallSeconds earlier < wall := by
  have hwall := wallSeconds_of_once? honce
  refine Int.not_le.1 (fun hle => ?_)
  unfold wallSeconds at hwall hle
  have hback : z.offsetAt earlier - z.offsetAt second ≤ gap :=
    hz.spread _ (z.offsetAt_mem_everyOffset earlier) _ (z.offsetAt_mem_everyOffset second)
  -- clocks were set back in between, and had shown the time already a little earlier
  generalize hagain : second - (z.offsetAt earlier - z.offsetAt second) = again
  rcases hz.offsetAt_once (show again ≤ earlier by omega) (Int.le_of_lt hlt)
    (by omega) with hsame | hsame
  · have hshown : z.wallSeconds again = wall := by
      unfold wallSeconds
      omega
    have hnow := eq_of_once? honce hshown
    omega
  · omega

/-- Clocks that are not set before the first day of 1970 is over do not go back behind its start. -/
theorem Steady.epoch {gap : Int} (hz : z.Steady gap) {later : Int} (hle : second ≤ later)
    (h : 0 ≤ z.wallSeconds second) : 0 ≤ z.wallSeconds later := by
  by_cases hday : secondsPerDay ≤ later
  · have hoffset := hz.near _ (z.offsetAt_mem_everyOffset later)
    unfold wallSeconds
    omega
  -- no clock has been set yet
  · have hfixed : ∀ moment ≤ later, z.offsetAt moment = z.initial := by
      intro moment hmoment
      refine offsetAfter_of_lt (fun change hchange => ?_) _
      have hchange := hz.late change hchange
      omega
    unfold wallSeconds at h ⊢
    rw [hfixed second hle] at h
    rw [hfixed later (Int.le_refl _)]
    omega

/-- A steady zone is regular. -/
theorem Steady.regular {gap : Int} (hz : z.Steady gap) : z.Regular := by
  constructor
  case before => exact fun wall second honce earlier hlt => hz.lt_of_once? honce hlt
  case after =>
    intro wall second honce later hlt
    refine Int.not_le.1 (fun hle => ?_)
    have hback := hz.orderly wall second later honce hle
    omega
  case epoch => exact fun second later hle hnonneg => hz.epoch hle hnonneg

/-- So is every known zone. -/
theorem regular_of_mem_tabledZones (h : z ∈ tabledZones) : z.Regular :=
  (steady_of_mem_tabledZones h).regular

end Zone

end JobFleet.Time
