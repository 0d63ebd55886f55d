/-
  JobFleet.Proofs.Time.Orderly: zones whose wall times come in order.

  Clocks that are set back show some times twice, and clocks that are set forward show some times
  never.  A time that they show once comes in order with the times around it, unless they are set
  back and soon set forward again.

  Main results:
    * `Steady.orderly` — a zone whose clocks are set by no more than the time between two changes is
      orderly.
    * `steady_of_mem_tabledZones`, `orderly_of_mem_tabledZones` — so is every zone of the table.
-/
import Mathlib.Data.List.Perm.Basic
import JobFleet.Time.ZoneTable

namespace JobFleet.Time

namespace Zone

variable {z : Zone} {wall second : Int}

/-- A time that clocks show once comes no earlier than any second at which they show no later a
    time. -/
def Orderly (z : Zone) : Prop :=
  ∀ wall second earlier, z.once? wall = some second →
    z.wallSeconds earlier ≤ wall → earlier ≤ second

/-- A time that clocks show once has one occurrence. -/
theorem occurrences_of_once? (h : z.once? wall = some second) : z.occurrences wall = [second] := by
  unfold once? at h
  split at h
  · rename_i found hfound
    cases h
    exact hfound
  · cases h

theorem wallSeconds_of_once? (h : z.once? wall = some second) : z.wallSeconds second = wall := by
  refine mem_occurrences.1 ?_
  rw [occurrences_of_once? h]
  exact List.mem_singleton.2 rfl

/-- Only at that second do clocks show the time. -/
theorem eq_of_once? (h : z.once? wall = some second) {other : Int}
    (hother : z.wallSeconds other = wall) :
    other = second := by
  have hmem := mem_occurrences.2 hother
  rw [occurrences_of_once? h] at hmem
  exact List.mem_singleton.1 hmem

end Zone

/-! ## Changes that lie apart -/

/-- One change comes after another and after some time in between. -/
def OffsetChange.Follows (gap : Int) (earlier later : OffsetChange) : Prop :=
  earlier.second + gap < later.second

instance (gap : Int) (earlier later : OffsetChange) :
    Decidable (OffsetChange.Follows gap earlier later) :=
  inferInstanceAs (Decidable (earlier.second + gap < later.second))

/-- Before the first change the offset is the first one. -/
theorem offsetAfter_of_lt {changes : List OffsetChange} {second : Int}
    (h : ∀ change ∈ changes, second < change.second) (offset : Int) :
    offsetAfter offset changes second = offset := by
  cases changes with
  | nil => rfl
  | cons first rest =>
    unfold offsetAfter
    rw [if_neg (Int.not_le.2 (h first List.mem_cons_self))]

/-- Within the time between two changes the offset changes once at most. -/
theorem offsetAfter_once {gap : Int} {changes : List OffsetChange}
    (happart : changes.Pairwise (OffsetChange.Follows gap)) {a b c : Int} (hab : a ≤ b)
    (hbc : b ≤ c) (hgap : c ≤ a + gap) :
    ∀ offset, offsetAfter offset changes a = offsetAfter offset changes b ∨
      offsetAfter offset changes b = offsetAfter offset changes c := by
  induction changes with
  | nil => exact fun offset => .inl rfl
  | cons first rest ih =>
    intro offset
    obtain ⟨hfirst, hrest⟩ := List.pairwise_cons.1 happart
    unfold offsetAfter
    by_cases ha : first.second ≤ a
    · rw [if_pos ha, if_pos (Int.le_trans ha hab), if_pos (Int.le_trans ha (Int.le_trans hab hbc))]
      exact ih hrest first.offset
    -- the first change comes after the first second, so the one after it comes after the last
    · rw [if_neg ha]
      by_cases hb : first.second ≤ b
      · -- the next change comes after all three
        have hlater : ∀ second, second ≤ c → ∀ change ∈ rest, second < change.second := by
          intro second hsecond change hmem
          have hfollows : first.second + gap < change.second := hfirst change hmem
          omega
        rw [if_pos hb, if_pos (Int.le_trans hb hbc), offsetAfter_of_lt (hlater b hbc),
          offsetAfter_of_lt (hlater c (Int.le_refl c))]
        exact .inr rfl
      · rw [if_neg hb]
        exact .inl rfl

namespace Zone

variable {z : Zone}

/-- Every offset that a zone can have. -/
def everyOffset (z : Zone) : List Int := z.initial :: z.changes.map OffsetChange.offset

theorem offsetAt_mem_everyOffset (z : Zone) (second : Int) : z.offsetAt second ∈ z.everyOffset :=
  offsetAfter_mem _ _ _

/-- Clocks are set by `gap` seconds at most and not twice within them, they are never off by more
    than a day, and they are not set before the first day of 1970 is over. -/
structure Steady (gap : Int) (z : Zone) : Prop where
  apart : z.changes.Pairwise (OffsetChange.Follows gap)
  spread : ∀ o ∈ z.everyOffset, ∀ o' ∈ z.everyOffset, o - o' ≤ gap
  late : ∀ change ∈ z.changes, secondsPerDay ≤ change.second
  near : ∀ o ∈ z.everyOffset, -secondsPerDay ≤ o

/-- Within the time that clocks are set by they are set once at most. -/
theorem Steady.offsetAt_once {gap : Int} (hz : z.Steady gap) {a b c : Int}
    (hab : a ≤ b) (hbc : b ≤ c) (hgap : c ≤ a + gap) :
    z.offsetAt a = z.offsetAt b ∨ z.offsetAt b = z.offsetAt c :=
  offsetAfter_once hz.apart hab hbc hgap z.initial

/-- Clocks that are set by no more than the time between two changes show times in order. -/
theorem Steady.orderly {gap : Int} (hz : z.Steady gap) : z.Orderly := by
  intro wall second earlier honce hle
  have hwall := wallSeconds_of_once? honce
  refine Int.not_lt.1 (fun hlt => ?_)
  unfold wallSeconds at hwall hle
  have hback : z.offsetAt second - z.offsetAt earlier ≤ gap :=
    hz.spread _ (z.offsetAt_mem_everyOffset second) _ (z.offsetAt_mem_everyOffset earlier)
  -- clocks were set back in between, and would show the time again a little later
  generalize hagain : second + (z.offsetAt second - z.offsetAt earlier) = again
  rcases hz.offsetAt_once (Int.le_of_lt hlt) (show earlier ≤
    again by omega) (by omega) with hsame | hsame
  · omega
  · have hshown : z.wallSeconds again = wall := by
      unfold wallSeconds
      omega
    have hnow := eq_of_once? honce hshown
    omega

end Zone

/-! ## Rules -/

/-- Two changes lie apart, whichever comes first. -/
def OffsetChange.Apart (gap : Int) (a b : OffsetChange) : Prop := a.Follows gap b ∨ b.Follows gap a

instance (gap : Int) (a b : OffsetChange) : Decidable (OffsetChange.Apart gap a b) :=
  inferInstanceAs (Decidable (a.Follows gap b ∨ b.Follows gap a))

/-- Changes that lie apart follow each other when they are put in order. -/
theorem follows_changesOf {gap : Int} (hgap : 0 ≤ gap) {rules : List ChangeRule}
    (h : (rules.flatMap ChangeRule.changes).Pairwise (OffsetChange.Apart gap)) :
    (changesOf rules).Pairwise (OffsetChange.Follows gap) := by
  have hsorted : (changesOf rules).Pairwise (fun a b => decide (a.second ≤ b.second) = true) := by
    refine List.pairwise_mergeSort ?_ ?_ _
    · intro a b c hab hbc
      exact decide_eq_true (Int.le_trans (of_decide_eq_true hab) (of_decide_eq_true hbc))
    · intro a b
      rcases Int.le_total a.second b.second with hle | hle
      · simp [hle]
      · simp [hle]
  -- to lie apart does not depend on the order, so sorting keeps it
  have happart : (changesOf rules).Pairwise (OffsetChange.Apart gap) :=
    ((List.mergeSort_perm _ _).pairwise_iff (fun h => h.symm)).2 h
  refine (hsorted.and happart).imp ?_
  rintro a b ⟨hle, hfollows | hfollows⟩
  · exact hfollows
  · have hle : a.second ≤ b.second := of_decide_eq_true hle
    unfold OffsetChange.Follows at hfollows
    omega

/-- The offsets of some rules. -/
theorem offset_mem_of_changesOf {rules : List ChangeRule} {o : Int}
    (h : o ∈ (changesOf rules).map OffsetChange.offset) : o ∈ rules.map ChangeRule.offset := by
  obtain ⟨change, hchange, rfl⟩ := List.mem_map.1 h
  obtain ⟨rule, hrule, hchange⟩ := List.mem_flatMap.1 (List.mem_mergeSort.1 hchange)
  obtain ⟨i, -, rfl⟩ := List.mem_map.1 hchange
  exact List.mem_map.2 ⟨rule, hrule, rfl⟩

/-- A zone that is described by rules is steady if its changes lie apart by as much as its
    offsets. -/
theorem steady_of_rules (name : String) {initial : Int} {gap : Int}
    {rules : List ChangeRule} (hgap : 0 ≤ gap)
    (hchanges : (rules.flatMap ChangeRule.changes).Pairwise (OffsetChange.Apart gap) ∧
      ∀ change ∈ rules.flatMap ChangeRule.changes, secondsPerDay ≤ change.second)
    (hspread : ∀ o ∈ initial :: rules.map ChangeRule.offset,
      ∀ o' ∈ initial :: rules.map ChangeRule.offset,
      o - o' ≤ gap) (hnear : ∀ o ∈ initial :: rules.map ChangeRule.offset, -secondsPerDay ≤ o) :
    Zone.Steady gap ⟨name, initial, changesOf rules⟩ := by
  have hmem : ∀ o ∈ Zone.everyOffset ⟨name, initial, changesOf rules⟩,
      o ∈ initial :: rules.map ChangeRule.offset := by
    intro o ho
    rcases List.mem_cons.1 ho with rfl | ho
    · exact List.mem_cons_self
    · exact List.mem_cons_of_mem _ (offset_mem_of_changesOf ho)
  constructor
  · exact follows_changesOf hgap hchanges.1
  · exact fun o ho o' ho' => hspread o (hmem o ho) o' (hmem o' ho')
  · exact fun change hchange => hchanges.2 change (List.mem_mergeSort.1 hchange)
  · exact fun o ho => hnear o (hmem o ho)

/-- So is a zone that keeps one offset. -/
theorem steady_fixedZone (name : String) {hours minutes : Int} {gap : Int} (hgap : 0 ≤ gap)
    (hnear : -secondsPerDay ≤ clock hours minutes) : (fixedZone name hours minutes).Steady gap := by
  have hmem : ∀ o ∈ (fixedZone name hours minutes).everyOffset, o = clock hours minutes :=
    fun o ho => List.mem_singleton.1 ho
  constructor
  · exact List.Pairwise.nil
  · intro o ho o' ho'
    rw [hmem o ho, hmem o' ho']
    omega
  · exact fun change hchange => absurd hchange List.not_mem_nil
  · intro o ho
    rw [hmem o ho]
    exact hnear

/-- Every known zone is steady: its clocks are set by an hour at most, and not twice within an
    hour. -/
theorem steady_of_mem_tabledZones {z : Zone} (h : z ∈ tabledZones) : z.Steady 3600 := by
  simp only [tabledZones, List.mem_cons, List.not_mem_nil, or_false] at h
  rcases h with rfl | rfl | rfl | rfl | rfl | rfl | rfl | rfl | rfl | rfl | rfl | rfl | rfl |
    rfl | rfl | rfl | rfl | rfl | rfl | rfl | rfl | rfl | rfl | rfl | rfl
  all_goals first
    | exact steady_fixedZone _ (by decide) (by decide)
    | exact steady_of_rules _ (by decide) (by decide +kernel) (by decide +kernel)
        (by decide +kernel)

/-- So they are orderly. -/
theorem orderly_of_mem_tabledZones {z : Zone} (h : z ∈ tabledZones) : z.Orderly :=
  (steady_of_mem_tabledZones h).orderly

end JobFleet.Time
