/-
  JobFleet.Proofs.Fleet.History: the pages of a job's history, and the row that its status shows.

  A page is a piece of the list of all rows of the job, and the pages in order are that list cut up
  (`browse_eq`): nothing is lost where one page ends and the next begins, whatever rows started
  together.  The status of a job shows the row that the ledger finds to be the latest, which is one
  of those that started last, but not the one with which the first page begins.

  Main results:
    * `pages_partition_history` — pages are pieces of the list of rows, newest first, and together
      they are that list.
    * `latest_is_last_of_newest` — which of the rows that started last is the latest, and which one
      begins the history.
-/
import Mathlib.Data.List.Nodup
import JobFleet.Fleet.Service
import JobFleet.Lock.Memory
import JobFleet.Proofs.Ledger.Order
import JobFleet.Proofs.Word.Checked

namespace JobFleet

open JobFleet.Text JobFleet.Time JobFleet.Word

namespace Ledger

variable {l : Ledger}

theorem list_eq (hf : l.failing = []) (job : String) (limit offset : Int) :
    l.list job limit offset =
      .ok (((Row.newestFirst (Row.ofJob job l.rows)).drop offset.toNat).take limit.toNat) :=
  answer_eq hf _ _

theorem latest?_ledger (hf : l.failing = []) (job : String) :
    l.latest? job = .ok (Row.newest (Row.ofJob job l.rows)).getLast? := by
  rw [← Row.latest?_eq]
  exact answer_eq hf _ _

end Ledger

namespace Fleet

variable {job : String} {page limit : UInt32} {l : Ledger}

/-! ## Pages -/

/-- The number of rows before a page, calculated on words. -/
def offsetOnWords (page limit : UInt32) : Except Fault Int := do
  let before ← sub page.toNat 1
  mul before limit.toNat

/-- The number of pages that rows fill. -/
def pageCount (rows limit : Nat) : Nat := (rows + limit - 1) / limit

/-- The rows of the first pages, one page after the other. -/
def browse (job : String) (limit : UInt32) (l : Ledger) : Nat → Except ServiceError (List Row)
  | 0 => .ok []
  | n + 1 => do
    let rows ← browse job limit l n
    let page ← history job (.ofNat (n + 1)) limit l
    return rows ++ page.items

/-- No page is too far for words. -/
theorem offsetOnWords_eq (page : UInt32) (hhigh : limit ≤ 100) :
    offsetOnWords page limit = .ok ((page.toNat - 1) * limit.toNat) := by
  have hpage := page.toNat_lt
  have hlimit : limit.toNat ≤ 100 := UInt32.le_iff_toNat_le.1 hhigh
  have hbefore : Fits 64 ((page.toNat : Int) - 1) := by
    rw [fits_word]
    omega
  -- the largest product, of the last page and a hundred rows
  have hlow : -100 ≤ ((page.toNat : Int) - 1) * limit.toNat := by
    rcases Nat.eq_zero_or_pos page.toNat with hzero | hpos
    · rw [hzero]
      omega
    · exact Int.le_trans (by decide) (Int.mul_nonneg (by omega) (Int.natCast_nonneg _))
  have hmost : ((page.toNat : Int) - 1) * limit.toNat ≤ 4294967296 * 100 :=
    Int.mul_le_mul (by omega) (by omega) (Int.natCast_nonneg _) (by decide)
  have hoffset : Fits 64 (((page.toNat : Int) - 1) * limit.toNat) := by
    rw [fits_word]
    omega
  unfold offsetOnWords
  rw [then_eq (sub_eq hbefore), mul_eq hoffset]

theorem history_of_page_zero (limit : UInt32) (l : Ledger) :
    history job 0 limit l = .error (.validation ⟨"page", "page must be >= 1"⟩) := rfl

theorem history_of_bad_limit (hpage : 1 ≤ page) (hlimit : limit < 1 ∨ 100 < limit) (l : Ledger) :
    history job page limit l =
      .error (.validation ⟨"limit", "limit must be between 1 and 100"⟩) := by
  unfold history
  rw [if_neg (UInt32.not_lt.2 hpage), if_pos hlimit]
  rfl

theorem history_eq (hf : l.failing = []) (hpage : 1 ≤ page) (hlow : 1 ≤ limit)
    (hhigh : limit ≤ 100) :
    history job page limit l =
      .ok ⟨job, page, limit, (Row.ofJob job l.rows).length,
        ((Row.newestFirst (Row.ofJob job l.rows)).drop ((page.toNat - 1) * limit.toNat)).take
          limit.toNat⟩ := by
  have hpages : 1 ≤ page.toNat := UInt32.le_iff_toNat_le.1 hpage
  have hvalid : ¬(limit < 1 ∨ 100 < limit) := by
    rintro (hsmall | hlarge)
    · exact UInt32.not_lt.2 hlow hsmall
    · exact UInt32.not_lt.2 hhigh hlarge
  have hoffset : (((page.toNat : Int) - 1) * limit.toNat).toNat =
      (page.toNat - 1) * limit.toNat := by
    rw [← Int.ofNat_one, ← Int.ofNat_sub hpages, ← Int.natCast_mul, Int.toNat_natCast]
  have hcount : l.count job = .ok ((Row.ofJob job l.rows).length : Int) := Ledger.answer_eq hf _ _
  unfold history
  rw [if_neg (UInt32.not_lt.2 hpage), if_neg hvalid]
  simp only [Ledger.list_eq hf, hcount, hoffset, Int.toNat_natCast]

/-- The first pages together are the first rows. -/
theorem browse_eq (hf : l.failing = []) (hlow : 1 ≤ limit) (hhigh : limit ≤ 100) (n : Nat)
    (hn : n < wordSize 32) :
    browse job limit l n =
      .ok ((Row.newestFirst (Row.ofJob job l.rows)).take (n * limit.toNat)) := by
  induction n with
  | zero => simp [browse]
  | succ n ih =>
    have hnumber : (UInt32.ofNat (n + 1)).toNat = n + 1 := UInt32.toNat_ofNat_of_lt' hn
    have hpage : 1 ≤ UInt32.ofNat (n + 1) := by
      rw [UInt32.le_iff_toNat_le, hnumber]
      exact Nat.le_add_left 1 n
    rw [browse, ih (Nat.lt_of_succ_lt hn), history_eq hf hpage hlow hhigh, hnumber,
      Nat.add_sub_cancel, Nat.succ_mul, List.take_add]
    rfl

/-- The pages that rows fill have room for all of them. -/
theorem le_pageCount_mul {size : Nat} (hsize : 1 ≤ size) (rows : Nat) :
    rows ≤ pageCount rows size * size := by
  have hsplit := Nat.div_add_mod (rows + size - 1) size
  have hrest := Nat.mod_lt (rows + size - 1) hsize
  unfold pageCount
  rw [Nat.mul_comm] at hsplit
  omega

/-- **Pages partition the history of a job.**  Let the rows of the job be put by start, the last
first and rows that started together in order of entry.  A page is the piece of that list at its
place, and tells how many rows there are; the pages in order are the beginning of the list, those up
to the last are all of it (as long as there are numbers for so many pages), and pages beyond are
empty.  The place of a page is calculated on words without a fault.  A page of zero is refused
whatever the limit, and any other page with a limit that is zero or above a hundred. -/
theorem pages_partition_history (job : String) (l : Ledger) (hf : l.failing = []) :
    (∃ sorted : List Row, Row.IsNewestFirst (l.rows.filter (fun r => r.job = job)) sorted ∧
      ∀ limit : UInt32, 1 ≤ limit → limit ≤ 100 →
        (∀ page : UInt32, 1 ≤ page →
          history job page limit l = .ok ⟨job, page, limit, l.rows.countP (fun r => r.job = job),
              (sorted.drop ((page.toNat - 1) * limit.toNat)).take limit.toNat⟩ ∧
            offsetOnWords page limit = .ok ((page.toNat - 1) * limit.toNat)) ∧
        (∀ n < wordSize 32, browse job limit l n = .ok (sorted.take (n * limit.toNat))) ∧
        (pageCount (l.rows.countP (fun r => r.job = job)) limit.toNat < wordSize 32 →
          browse job limit l (pageCount (l.rows.countP (fun r => r.job = job)) limit.toNat) =
            .ok sorted) ∧
        ∀ page : UInt32, pageCount (l.rows.countP (fun r => r.job = job)) limit.toNat < page.toNat →
          history job page limit l =
            .ok ⟨job, page, limit, l.rows.countP (fun r => r.job = job), []⟩) ∧
      (∀ limit, history job 0 limit l = .error (.validation ⟨"page", "page must be >= 1"⟩)) ∧
      ∀ page limit, 1 ≤ page → limit < 1 ∨ 100 < limit →
        history job page limit l =
          .error (.validation ⟨"limit", "limit must be between 1 and 100"⟩) := by
  have hlist := Row.isNewestFirst_newestFirst (Row.ofJob job l.rows)
  have hcount : (Row.ofJob job l.rows).length = l.rows.countP (fun r => r.job = job) :=
    List.countP_eq_length_filter.symm
  refine ⟨⟨Row.newestFirst (Row.ofJob job l.rows), hlist, ?_⟩,
    fun limit => history_of_page_zero limit l,
    fun page limit hpage hlimit => history_of_bad_limit hpage hlimit l⟩
  intro limit hlow hhigh
  -- as many pages as are counted have room for all rows
  have hroom := le_pageCount_mul (UInt32.le_iff_toNat_le.1 hlow)
    (l.rows.countP (fun r => r.job = job))
  rw [← hcount] at hroom ⊢
  rw [← hlist.same.length_eq] at hroom
  refine ⟨fun page hpage => ⟨history_eq hf hpage hlow hhigh, offsetOnWords_eq page hhigh⟩,
    fun n hn => browse_eq hf hlow hhigh n hn, ?_, ?_⟩
  · intro hlast
    rw [browse_eq hf hlow hhigh _ hlast, ← hlist.same.length_eq, List.take_of_length_le hroom]
  · intro page hbeyond
    have hpage : 1 ≤ page := UInt32.le_iff_toNat_le.2 (Nat.one_le_of_lt hbeyond)
    rw [← hlist.same.length_eq] at hbeyond
    -- a page beyond them begins after the last row
    have hplace := Nat.le_trans hroom
      (Nat.mul_le_mul_right limit.toNat (Nat.le_sub_one_of_lt hbeyond))
    rw [history_eq hf hpage hlow hhigh, List.drop_of_length_le hplace, List.take_nil]

/-- Five runs of a job, three of which started together, and one of another job. -/
def sixRuns : Ledger :=
  .ofReports [.momentary "p" 0 "first", .momentary "q" 5 "other", .momentary "p" 3 "second",
    .momentary "p" 3 "third", .momentary "p" 1 "fourth", .momentary "p" 3 "fifth"]

/-- Pages of two rows cut the three that started together apart, and lose none. -/
theorem pages_partition_history_sixRuns :
    sixRuns.failing = [] ∧ ∃ sorted : List Row,
      Row.IsNewestFirst (sixRuns.rows.filter (fun r => r.job = "p")) sorted ∧
      (sorted.filter (fun r => r.startedAt = .ofSeconds 3)).map (fun r => r.message) =
        ["second", "third", "fifth"] ∧
      browse "p" 2 sixRuns 3 = .ok sorted ∧ history "p" 2 2 sixRuns =
        .ok ⟨"p", 2, 2, 5, (sorted.drop 2).take 2⟩ ∧
      history "p" 4 2 sixRuns = .ok ⟨"p", 4, 2, 5, []⟩ ∧
      history "p" 1 101 sixRuns =
        .error (.validation ⟨"limit", "limit must be between 1 and 100"⟩) := by
  have hf : sixRuns.failing = [] := rfl
  have hfive : sixRuns.rows.countP (fun r => r.job = "p") = 5 := by decide
  have hthree : pageCount 5 (2 : UInt32).toNat = 3 := by decide
  obtain ⟨⟨sorted, hsorted, hpages⟩, -, hlimit⟩ := pages_partition_history "p" sixRuns hf
  obtain ⟨hpage, -, hall, hbeyond⟩ := hpages 2 (by decide) (by decide)
  rw [hfive, hthree] at hall
  rw [hfive] at hbeyond
  refine ⟨hf, sorted, hsorted, ?_, hall (by decide), ?_, hbeyond 4 (by decide),
    hlimit 1 101 (by decide) (.inr (by decide))⟩
  · rw [hsorted.stable]
    decide
  · have hsecond := (hpage 2 (by decide)).1
    rw [hfive] at hsecond
    exact hsecond

/-! ## The latest row -/

/-- The list of rows of a job begins with the first of the newest. -/
theorem list_first (hf : l.failing = []) (job : String) :
    l.list job 1 0 = .ok (Row.newest (Row.ofJob job l.rows)).head?.toList := by
  rw [Ledger.list_eq hf, ← Row.head?_of_isNewestFirst (Row.isNewestFirst_newestFirst _),
    ← List.take_one]
  rfl

/-- So does the first page of the history. -/
theorem history_first (hf : l.failing = []) (job : String) (hlow : 1 ≤ limit)
    (hhigh : limit ≤ 100) :
    ∃ page, history job 1 limit l = .ok page ∧ page.items.head? =
      (Row.newest (Row.ofJob job l.rows)).head? := by
  have hlimit : limit.toNat ≠ 0 := Nat.ne_of_gt (UInt32.le_iff_toNat_le.1 hlow)
  refine ⟨_, history_eq hf (by decide) hlow hhigh, ?_⟩
  rw [← Row.head?_of_isNewestFirst (Row.isNewestFirst_newestFirst _)]
  show (((Row.newestFirst (Row.ofJob job l.rows)).drop (0 * limit.toNat)).take limit.toNat).head? =
    _
  rw [Nat.zero_mul, List.drop_zero, List.head?_take, if_neg hlimit]

theorem statusOf_lastExecution {σ : Type} [LockStore σ] (lock : Lock) (info : JobInfo) (w : World σ)
    (hf : w.ledger.failing = []) : ∃ view, (statusOf lock info w).1 = .ok view ∧
      view.lastExecution = (Row.newest (Row.ofJob info.id w.ledger.rows)).getLast? := by
  have hcount := Ledger.answer_eq hf .countFailed
    (((Row.since (hoursAgo w.now failureWindowHours) w.ledger.rows).filter
      (fun r => !r.success && Ledger.isOf (some info.id) r)).length : Int)
  have hfailures : w.ledger.countFailed (some info.id) w.now failureWindowHours = _ := hcount
  unfold statusOf
  rw [Ledger.latest?_ledger hf, hfailures]
  exact ⟨_, rfl, rfl⟩

/-- A list without repetitions begins and ends with the same row if it has at most one. -/
theorem getLast?_eq_head?_iff {rows : List Row} (h : rows.Nodup) : rows.getLast? = rows.head? ↔
    rows.length ≤ 1 := by
  cases rows with
  | nil => simp
  | cons first later =>
    cases hlast : later.getLast? with
    | none =>
      have hnil : later = [] := List.getLast?_eq_none_iff.1 hlast
      simp [hnil]
    | some last =>
      -- the last row is another one
      have hmem := List.mem_of_getLast? hlast
      have hne : last ≠ first := fun hsame => (List.nodup_cons.1 h).1 (hsame ▸ hmem)
      have hlong := List.length_pos_of_mem hmem
      rw [List.getLast?_cons, hlast, List.head?_cons, List.length_cons]
      refine iff_of_false (fun heq => hne (Option.some.inj heq)) (by omega)

/-- **The latest row is the last of those that started last.**  Of the rows of a job with the
greatest start, the ledger's latest one is the last that was entered, and the list of rows begins
with the first.  So either both find a row or neither does, and the rows they find started together;
they are the same row if and only if no other row started with it.  A status shows the one, and the
first page of the history begins with the other. -/
theorem latest_is_last_of_newest (job : String) (l : Ledger) (hf : l.failing = []) :
    l.latest? job = .ok (Row.newest (Row.ofJob job l.rows)).getLast? ∧
      l.list job 1 0 = .ok (Row.newest (Row.ofJob job l.rows)).head?.toList ∧
      (l.latest? job = .ok none ↔ l.list job 1 0 = .ok []) ∧
      (∀ row first, l.latest? job = .ok (some row) → l.list job 1 0 = .ok [first] →
        row.startedAt = first.startedAt) ∧
      ((l.rows.map (fun r => r.id)).Nodup →
        (l.latest? job = (l.list job 1 0).map List.head? ↔
          (Row.newest (Row.ofJob job l.rows)).length ≤ 1)) ∧
      (∀ (σ : Type) [LockStore σ] (lock : Lock) (info : JobInfo) (w : World σ),
        info.id = job → w.ledger = l →
        ∃ view, (statusOf lock info w).1 = .ok view ∧
          view.lastExecution = (Row.newest (Row.ofJob job l.rows)).getLast?) ∧
      ∀ limit : UInt32, 1 ≤ limit → limit ≤ 100 →
        ∃ page, history job 1 limit l = .ok page ∧
        page.items.head? = (Row.newest (Row.ofJob job l.rows)).head? := by
  have hlatest := Ledger.latest?_ledger hf job
  have hfirst := list_first hf job
  refine ⟨hlatest, hfirst, ?_, ?_, ?_, ?_, fun limit hlow hhigh => history_first hf job hlow hhigh⟩
  · rw [hlatest, hfirst, Except.ok.injEq, Except.ok.injEq, List.getLast?_eq_none_iff,
      Option.toList_eq_nil_iff, List.head?_eq_none_iff]
  · intro row first hrow hlist
    rw [hlatest, Except.ok.injEq] at hrow
    rw [hfirst, Except.ok.injEq, Option.toList_eq_singleton_iff] at hlist
    -- each of the two is among the newest rows, so neither started before the other
    obtain ⟨hrowMem, hrowLast⟩ := Row.mem_newest_iff.1 (List.mem_of_getLast? hrow)
    obtain ⟨hfirstMem, hfirstLast⟩ := Row.mem_newest_iff.1 (List.mem_of_head? hlist)
    exact Instant.eq_of_le (hfirstLast row hrowMem) (hrowLast first hfirstMem)
  · intro hids
    have hrows : l.rows.Nodup := List.Nodup.of_map _ hids
    have hnewest : (Row.newest (Row.ofJob job l.rows)).Nodup := (hrows.filter _).filter _
    rw [hlatest, hfirst, ← getLast?_eq_head?_iff hnewest]
    show Except.ok _ = Except.ok _ ↔ _
    rw [Except.ok.injEq, Option.head?_toList]
  · rintro σ _ lock info w rfl rfl
    exact statusOf_lastExecution lock info w hf

/-- Two runs that started together, and a later one. -/
def threeRuns : Ledger :=
  .ofReports [.momentary "p" 0 "first", .momentary "p" 0 "second", .momentary "p" 4 "third"]

/-- What operators ask about the job while the ledger holds these runs. -/
def threeRunsWorld : World MemoryStore :=
  { start := .ofSeconds 9, locks := {}, ledger := threeRuns }

/-- The job. -/
def threeRunsInfo : JobInfo :=
  ⟨"p", "p", "Job p", "interval[0:01:00]", none, true, false, 0, 60, 600⟩

/-- The last run started alone, so the latest row begins the history. -/
theorem latest_is_last_of_newest_alone :
    threeRuns.failing = [] ∧ (threeRuns.rows.map (fun r => r.id)).Nodup ∧
      threeRuns.latest? "p" = (threeRuns.list "p" 1 0).map List.head? ∧
      ∃ view page, (statusOf ⟨"job_lock", .scheduler 0, 200⟩ threeRunsInfo threeRunsWorld).1 =
        .ok view ∧
        history "p" 1 100 threeRuns = .ok page ∧ view.lastExecution = page.items.head? := by
  have hf : threeRuns.failing = [] := rfl
  have hids : (threeRuns.rows.map (fun r => r.id)).Nodup := by decide
  have halone : (Row.newest (Row.ofJob "p" threeRuns.rows)).length ≤ 1 := by decide
  obtain ⟨hlatest, hfirst, -, -, hsame, hstatus, hpages⟩ :=
    latest_is_last_of_newest "p" threeRuns hf
  have hequal := (hsame hids).2 halone
  obtain ⟨view, hview, hlast⟩ :=
    hstatus MemoryStore ⟨"job_lock", .scheduler 0, 200⟩ threeRunsInfo threeRunsWorld rfl rfl
  obtain ⟨page, hpage, hhead⟩ := hpages 100 (by decide) (by decide)
  refine ⟨hf, hids, hequal, view, page, hview, hpage, ?_⟩
  rw [hlatest, hfirst] at hequal
  rw [hlast, hhead, Except.ok.inj hequal]
  exact Option.head?_toList

/-- A scheduled and a manual run that started together. -/
def twoKinds : Ledger := .ofReports [.momentary "p" 0 "scheduled", .momentary "p" 0 "manual"]

/-- The latest row is the run entered last, while the list of rows, and with it the first page of
    the history, begins with the one entered first. -/
theorem latest_does_not_begin_history :
    twoKinds.failing = [] ∧
      (twoKinds.latest? "p").toOption.map (Option.map (fun r : Row => r.message)) =
        some (some "manual") ∧
      (twoKinds.list "p" 1 0).toOption.map (List.map (fun r : Row => r.message)) =
        some ["scheduled"] ∧
      (∃ page, history "p" 1 1 twoKinds = .ok page ∧
        page.items.head?.map (fun r => r.message) = some "scheduled") ∧
      twoKinds.latest? "p" ≠ (twoKinds.list "p" 1 0).map List.head? := by
  have hlatest : (twoKinds.latest? "p").toOption.map (Option.map (fun r : Row => r.message)) =
      some (some "manual") := by
    decide
  have hfirst := list_first (l := twoKinds) rfl "p"
  obtain ⟨page, hpage, hhead⟩ : ∃ page, history "p" 1 1 twoKinds = .ok page ∧
      page.items.head? = (Row.newest (Row.ofJob "p" twoKinds.rows)).head? :=
      history_first rfl "p" (by decide) (by decide)
  refine ⟨rfl, hlatest, ?_, ⟨page, hpage, ?_⟩, ?_⟩
  · rw [hfirst]
    decide
  · rw [hhead]
    decide
  · intro hsame
    rw [hsame, hfirst] at hlatest
    exact absurd hlatest (by decide)

end Fleet

end JobFleet
