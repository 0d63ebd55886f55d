/-
  JobFleet.Proofs.Ledger.Window: what the ledger says of the last hours.

  The list of recent rows and the two counts of failures filter the rows each on its own, and the
  list is sorted besides.  The order is determined by the rows (`eq_of_descending`), so filtering
  and sorting may change places (`newestFirst_since`), and in a list that is sorted the rows of a
  shorter window come first (`since_isPrefix`).  The failures of all jobs are those of each job
  added up (`countP_eq_sum`).

  Main results:
    * `newestFirst_since` — the sorted rows of a window are the sorted rows, cut off where the
      window starts.
    * `windows_agree` — list and counts show one window, a longer window shows more, and nothing is
      changed.
-/
import Mathlib.Algebra.BigOperators.Ring.Finset
import JobFleet.Proofs.Ledger.Order
import JobFleet.Session.State

namespace JobFleet

open JobFleet.Time

/-! ## Rows in order -/

namespace Row

variable {a b rows sorted : List Row} {moment : Instant}

theorem filter_at_eq_nil (h : ∀ r ∈ rows, r.startedAt < moment) :
    rows.filter (fun r => r.startedAt = moment) = [] := by
  refine List.filter_eq_nil_iff.2 fun r hr => ?_
  rw [decide_eq_true_eq]
  rintro rfl
  exact Int.lt_irrefl _ (h r hr)

/-- A list of descending starts is determined by its rows of every moment. -/
theorem eq_of_descending (ha : a.Pairwise (fun r s => s.startedAt ≤ r.startedAt))
    (hb : b.Pairwise (fun r s => s.startedAt ≤ r.startedAt))
    (h : ∀ moment : Instant, a.filter (fun r => r.startedAt = moment) =
      b.filter (fun r => r.startedAt = moment)) :
    a = b := by
  induction a generalizing b with
  | nil =>
    cases b with
    | nil => rfl
    | cons y b =>
      have hy := h y.startedAt
      rw [List.filter_nil, List.filter_cons_of_pos (by simp)] at hy
      cases hy
  | cons x a ih =>
    cases b with
    | nil =>
      have hx := h x.startedAt
      rw [List.filter_nil, List.filter_cons_of_pos (by simp)] at hx
      cases hx
    | cons y b =>
      obtain ⟨hax, ha⟩ := List.pairwise_cons.1 ha
      obtain ⟨hby, hb⟩ := List.pairwise_cons.1 hb
      -- the first row of either list cannot have started after all rows of the other one
      have hsame : x.startedAt = y.startedAt := by
        rcases Int.lt_trichotomy x.startedAt.nanos y.startedAt.nanos with hlt | heq | hgt
        · have hnone : (x :: a).filter (fun r => r.startedAt = y.startedAt) = [] := by
            refine filter_at_eq_nil ?_
            rintro r (_ | ⟨_, hr⟩)
            · exact hlt
            · exact Int.lt_of_le_of_lt (hax r hr) hlt
          rw [h, List.filter_cons_of_pos (by simp)] at hnone
          cases hnone
        · exact congrArg Instant.mk heq
        · have hnone : (y :: b).filter (fun r => r.startedAt = x.startedAt) = [] := by
            refine filter_at_eq_nil ?_
            rintro r (_ | ⟨_, hr⟩)
            · exact hgt
            · exact Int.lt_of_le_of_lt (hby r hr) hgt
          rw [← h, List.filter_cons_of_pos (by simp)] at hnone
          cases hnone
      have hfirst : x = y := by
        have hhead := h x.startedAt
        rw [List.filter_cons_of_pos (by simp), List.filter_cons_of_pos (by simp [hsame])] at hhead
        exact (List.cons.inj hhead).1
      subst hfirst
      refine congrArg (x :: ·) (ih ha ‹_› fun moment => ?_)
      have hall := h moment
      by_cases hx : x.startedAt = moment
      · rw [List.filter_cons_of_pos (by simp [hx]), List.filter_cons_of_pos (by simp [hx])] at hall
        exact (List.cons.inj hall).2
      · rwa [List.filter_cons_of_neg (by simp [hx]), List.filter_cons_of_neg (by simp [hx])] at hall

/-- There is one order that puts the newest rows first. -/
theorem IsNewestFirst.unique (ha : IsNewestFirst rows a) (hb : IsNewestFirst rows b) : a = b :=
  eq_of_descending ha.descending hb.descending fun moment =>
    (ha.stable moment).trans (hb.stable moment).symm

/-- What is left of it from a moment on is in that order. -/
theorem IsNewestFirst.since (h : IsNewestFirst rows sorted) (moment : Instant) :
    IsNewestFirst (Row.since moment rows) (Row.since moment sorted) where
  same := h.same.filter _
  descending := h.descending.filter _
  stable := by
    intro start
    unfold Row.since
    rw [List.filter_comm, h.stable, List.filter_comm]

/-- Rows may be chosen before or after they are sorted. -/
theorem newestFirst_since (moment : Instant) (rows : List Row) :
    newestFirst (since moment rows) = since moment (newestFirst rows) :=
  (isNewestFirst_newestFirst _).unique ((isNewestFirst_newestFirst rows).since moment)

/-- Of rows in descending order, those of a window are the first. -/
theorem since_isPrefix (h : sorted.Pairwise (fun r s => s.startedAt ≤ r.startedAt))
    (moment : Instant) :
    since moment sorted <+: sorted := by
  induction sorted with
  | nil => exact List.prefix_rfl
  | cons first later ih =>
    obtain ⟨hfirst, hlater⟩ := List.pairwise_cons.1 h
    unfold since
    by_cases hin : moment ≤ first.startedAt
    · rw [List.filter_cons_of_pos (by simpa using hin)]
      exact (List.prefix_cons_inj first).2 (ih hlater)
    · have hnone : (first :: later).filter (fun r => moment ≤ r.startedAt) = [] := by
        refine List.filter_eq_nil_iff.2 ?_
        rintro r (_ | ⟨_, hr⟩) hle
        · exact hin (of_decide_eq_true hle)
        · exact hin (Int.le_trans (of_decide_eq_true hle) (hfirst r hr))
      rw [hnone]
      exact List.nil_prefix

/-- A window that starts earlier can be narrowed. -/
theorem since_since {early late : Instant} (h : early ≤ late) (rows : List Row) :
    since late (since early rows) = since late rows := by
  unfold since
  rw [List.filter_filter]
  refine List.filter_congr fun r _ => ?_
  rw [Bool.and_eq_left_iff_imp, decide_eq_true_eq, decide_eq_true_eq]
  exact Int.le_trans h

/-- What is counted of all jobs is what is counted of each of them. -/
theorem countP_eq_sum (p : Row → Bool) {ids : List String} (hnodup : ids.Nodup)
    (hall : ∀ r ∈ rows, r.job ∈ ids) :
    (ids.map fun id => rows.countP (fun r => p r && decide (r.job = id))).sum = rows.countP p := by
  rw [← List.sum_toFinset _ hnodup]
  induction rows with
  | nil => simp
  | cons r rows ih =>
    obtain ⟨hr, hrows⟩ := List.forall_mem_cons.1 hall
    -- the row counts for its own job, which is there once
    have hone : ∑ id ∈ ids.toFinset, (if (p r && decide (r.job = id)) = true then 1 else 0) =
        if p r = true then 1 else 0 := by
      cases p r with
      | false => simp
      | true => simp [hr]
    simp only [List.countP_cons]
    rw [Finset.sum_add_distrib, ih hrows, hone]

end Row

/-! ## Windows -/

namespace Ledger

variable {l : Ledger} {now : Instant} {hours short long : Int}

/-- Where the window of the last hours starts. -/
def windowFrom (now : Instant) (hours : Int) : Instant :=
  ⟨now.nanos - 3600 * hours * nanosPerSecond⟩

/-- The window starts in the calendar. -/
def Reaches (now : Instant) (hours : Int) : Prop := (windowFrom now hours).inCalendar = true

/-- The rows of a window, newest first. -/
def window (now : Instant) (hours : Int) (rows : List Row) : List Row :=
  Row.since (windowFrom now hours) (Row.newestFirst rows)

instance (now : Instant) (hours : Int) : Decidable (Reaches now hours) :=
  inferInstanceAs (Decidable ((windowFrom now hours).inCalendar = true))

/-- A window that the calendar has begins so many hours ago. -/
theorem hoursAgo_of_reaches (h : Reaches now hours) :
    hoursAgo now hours = windowFrom now hours := by
  have hw : windowStart? now (3600 * hours) = some (windowFrom now hours) :=
    Instant.later?_eq_some.2 ⟨Int.sub_eq_add_neg, h⟩
  rw [hoursAgo, hw, Option.getD_some]

/-- A longer window begins earlier. -/
theorem windowFrom_le (h : short ≤ long) (now : Instant) :
    windowFrom now long ≤ windowFrom now short := by
  show now.nanos - 3600 * long * nanosPerSecond ≤ now.nanos - 3600 * short * nanosPerSecond
  unfold nanosPerSecond
  omega

/-- The rows of a window come newest first. -/
theorem isNewestFirst_window (now : Instant) (hours : Int) (rows : List Row) :
    Row.IsNewestFirst (Row.since (windowFrom now hours) rows) (window now hours rows) :=
  (Row.isNewestFirst_newestFirst rows).since _

/-- The ledger finds the rows of the window. -/
theorem recent_eq (hf : l.failing = []) (h : Reaches now hours) :
    l.recent now hours = .ok (window now hours l.rows) := by
  unfold window
  rw [← Row.newestFirst_since, ← hoursAgo_of_reaches h]
  exact answer_eq hf _ _

/-- The failures counted are those in the list. -/
theorem countFailed_eq (hf : l.failing = []) (h : Reaches now hours) (job : Option String) :
    l.countFailed job now hours =
      .ok ((window now hours l.rows).countP (fun r => !r.success && isOf job r)) := by
  rw [(isNewestFirst_window now hours l.rows).same.countP_eq, List.countP_eq_length_filter,
    ← hoursAgo_of_reaches h]
  exact answer_eq hf _ _

/-- The rows of the shorter of two windows are the first of the longer one. -/
theorem window_isPrefix (h : short ≤ long) (now : Instant) (rows : List Row) :
    window now short rows <+: window now long rows := by
  unfold window
  rw [← Row.since_since (windowFrom_le h now)]
  exact Row.since_isPrefix ((Row.isNewestFirst_newestFirst rows).descending.filter _) _

/-- The failures of all jobs are those of each job added up. -/
theorem countFailed_sum (hf : l.failing = []) (h : Reaches now hours) {ids : List String}
    (hnodup : ids.Nodup) (hids : ∀ id, id ∈ ids ↔ ∃ r ∈ l.rows, r.job = id) :
    (ids.mapM (fun id => l.countFailed (some id) now hours)).map List.sum =
      l.countFailed none now hours := by
  have hrows : ∀ r ∈ window now hours l.rows, r.job ∈ ids := by
    intro r hr
    have hmem := (Row.isNewestFirst_newestFirst l.rows).same.mem_iff.1 (List.mem_of_mem_filter hr)
    exact (hids r.job).2 ⟨r, hmem, rfl⟩
  have hsum := Row.countP_eq_sum (fun r => !r.success) hnodup hrows
  have heach : ids.mapM (fun id => l.countFailed (some id) now hours) =
      .ok (ids.map fun id => (window now hours l.rows).countP (fun r => !r.success &&
        decide (r.job = id))) := by
    simp only [countFailed_eq hf h]
    exact List.mapM_pure
  rw [heach, countFailed_eq hf h]
  simp only [isOf, Bool.and_true]
  rw [← hsum, Nat.cast_list_sum, List.map_map]
  rfl

/-- **List and counts show one window.**  The recent rows are those that started in the window, its
first moment included, newest first.  The failures counted are those in that list, and they are the
failures of each job added up, in whatever order the jobs of the ledger are gone through.  The list
of a shorter window begins the list of a longer one, which counts no fewer failures of any job.  To
ask leaves everything as it was. -/
theorem windows_agree (l : Ledger) (now : Instant) (hf : l.failing = []) :
    (∀ hours, Reaches now hours → ∃ recent : List Row,
      l.recent now hours = .ok recent ∧
      Row.IsNewestFirst (l.rows.filter (fun r => windowFrom now hours ≤ r.startedAt)) recent ∧
      l.countFailed none now hours = .ok (recent.countP (fun r => !r.success)) ∧
      (∀ ids : List String, ids.Nodup → (∀ id, id ∈ ids ↔ ∃ r ∈ l.rows, r.job = id) →
        (ids.mapM (fun id => l.countFailed (some id) now hours)).map List.sum =
          l.countFailed none now hours) ∧
      (1 ≤ hours → hours ≤ 168 → Fleet.recentRuns now hours l = .ok recent)) ∧
    (∀ short long, Reaches now short → Reaches now long → short ≤ long →
      (∃ later all : List Row, l.recent now short = .ok later ∧
        l.recent now long = .ok all ∧ later <+: all) ∧
      ∀ job, ∃ few many, l.countFailed job now short = .ok few ∧
      l.countFailed job now long = .ok many ∧ few ≤ many) ∧
    ∀ (s : Session.State) (foreground : Bool) (job : Option String) (hours : Int),
      (Session.State.begin foreground s (.recent hours)).2 = s ∧
      (Session.State.begin foreground s (.countFailed job hours)).2 = s ∧
      (Session.State.begin foreground s (.serviceRecent hours)).2 = s := by
  refine ⟨fun hours h => ?_, fun short long hshort hlong hle => ?_,
    fun s foreground job hours => ⟨rfl, rfl, rfl⟩⟩
  · refine ⟨window now hours l.rows, recent_eq hf h,
      isNewestFirst_window now hours l.rows, ?_, ?_, ?_⟩
    · rw [countFailed_eq hf h]
      simp only [isOf, Bool.and_true]
    · exact fun ids hnodup hids => countFailed_sum hf h hnodup hids
    · intro hlow hhigh
      unfold Fleet.recentRuns
      rw [if_neg (by omega), recent_eq hf h]
      rfl
  · -- newest first, so the shorter window is a beginning of the longer one
    have hinitial := window_isPrefix hle now l.rows
    refine ⟨⟨_, _, recent_eq hf hshort, recent_eq hf hlong, hinitial⟩, fun job => ?_⟩
    exact ⟨_, _, countFailed_eq hf hshort job, countFailed_eq hf hlong job,
      Int.ofNat_le.2 hinitial.sublist.countP_le⟩

/-- Runs of two jobs: a success, a failure just at the start of the last hour, another one together
    with it, and a success. -/
def twoHours : Ledger :=
  .ofReports [.momentary "p" 300 "first", { Report.momentary "q" 0 "zeroth" with success := false },
    { Report.momentary "p" 3600 "second" with success := false },
    { Report.momentary "q" 3600 "third" with success := false }, .momentary "q" 5000 "fourth"]

/-- The rows that started just an hour ago count for the last hour. -/
theorem windows_agree_twoHours :
    twoHours.failing = [] ∧ Reaches (.ofSeconds 7200) 1 ∧ Reaches (.ofSeconds 7200) 2 ∧
      (∃ later all : List Row, twoHours.recent (.ofSeconds 7200) 1 = .ok later ∧
        twoHours.recent (.ofSeconds 7200) 2 = .ok all ∧ later <+: all) ∧
      twoHours.countFailed none (.ofSeconds 7200) 1 = .ok 2 ∧
      (["q", "p"].mapM (fun id => twoHours.countFailed (some id) (.ofSeconds 7200) 1)).map
        List.sum = .ok 2 := by
  have hf : twoHours.failing = [] := rfl
  have hone : Reaches (.ofSeconds 7200) 1 := by decide
  have htwo : Reaches (.ofSeconds 7200) 2 := by decide
  have hcount : twoHours.countFailed none (.ofSeconds 7200) 1 = .ok 2 := by decide
  obtain ⟨hwindow, hlonger, -⟩ := windows_agree twoHours (.ofSeconds 7200) hf
  obtain ⟨recent, -, -, -, hsum, -⟩ := hwindow 1 hone
  refine ⟨hf, hone, htwo, (hlonger 1 2 hone htwo (by decide)).1, hcount, ?_⟩
  rw [hsum ["q", "p"] (by decide) ?_, hcount]
  have hjobs : twoHours.rows.map (fun r => r.job) = ["p", "q", "p", "q", "q"] := by decide
  intro id
  rw [show (∃ r ∈ twoHours.rows, r.job = id) ↔
    id ∈ twoHours.rows.map (fun r => r.job) from List.mem_map.symm, hjobs]
  simp
  tauto

end Ledger

end JobFleet
