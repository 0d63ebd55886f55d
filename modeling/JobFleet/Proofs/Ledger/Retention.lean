/-
  JobFleet.Proofs.Ledger.Retention: rows enter at the end and leave only by a cleanup that finds
  them too old.

  A call to the ledger either enters one row or drops the rows that were entered before its window;
  `rows_call` says so of one call.  Over a row of calls this gives a closed form: `rows_after` reads
  the rows present off the list of all rows ever entered, each with the calls that came after it.

  Main results:
    * `create_enters` — a report is entered with all its fields.
    * `rows_after` — the rows present are those entered that no later cleanup found outdated, in
      order of entry.
    * `cleanup_answer` — a cleanup answers the number of rows it takes away.
    * `cleanup_twice` — of two cleanups at one moment only the narrower window counts.
-/
import JobFleet.Ledger.Memory

namespace JobFleet

open JobFleet.Time

namespace Ledger

/-! ## Calls -/

/-- A call that may change the ledger, with the clock reading it is made at. -/
inductive Call
  | create (now : Instant) (report : Report)
  | insert (row : Row)
  | cleanup (now : Instant) (days : Int)

namespace Call

/-- The call is a cleanup whose window starts after the row was entered. -/
def Outdates : Call → Row → Prop
  | cleanup now days, row => row.createdAt.nanos < now.nanos - secondsPerDay * days * nanosPerSecond
  | _, _ => False

instance (c : Call) (row : Row) : Decidable (c.Outdates row) :=
  match c with
  | cleanup now days =>
      inferInstanceAs (Decidable (row.createdAt.nanos <
        now.nanos - secondsPerDay * days * nanosPerSecond))
  | create .. => inferInstanceAs (Decidable False)
  | insert .. => inferInstanceAs (Decidable False)

/-- The window of a cleanup starts in the calendar. -/
def Representable : Call → Prop
  | cleanup now days =>
    (Instant.mk (now.nanos - secondsPerDay * days * nanosPerSecond)).inCalendar = true
  | _ => True

instance (c : Call) : Decidable c.Representable :=
  match c with
  | cleanup now days =>
      inferInstanceAs (Decidable
        ((Instant.mk (now.nanos - secondsPerDay * days * nanosPerSecond)).inCalendar = true))
  | create .. => inferInstanceAs (Decidable True)
  | insert .. => inferInstanceAs (Decidable True)

end Call

/-- The ledger after a call. -/
def call (l : Ledger) : Call → Ledger
  | .create now report => (l.create now report).2
  | .insert row => l.insert row
  | .cleanup now days => (l.cleanup now days).2

/-- The ledger after a row of calls. -/
def after (l : Ledger) (calls : List Call) : Ledger := calls.foldl call l

/-- The row that a call enters: the one that `create` hands back or `insert` is given. -/
def entered? (l : Ledger) : Call → Option Row
  | .create now report => (l.create now report).1.toOption
  | .insert row => some row
  | .cleanup .. => none

/-- All rows that the calls enter, in order, each with the calls that come after it. -/
def entries (l : Ledger) : List Call → List (Row × List Call)
  | [] => []
  | c :: later => (l.entered? c).toList.map (fun row => (row, later)) ++ (l.call c).entries later

@[simp] theorem after_nil (l : Ledger) : l.after [] = l := rfl

@[simp] theorem after_cons (l : Ledger) (c : Call) (later : List Call) :
    l.after (c :: later) = (l.call c).after later :=
  rfl

theorem after_append (l : Ledger) (before later : List Call) :
    l.after (before ++ later) = (l.after before).after later :=
  List.foldl_append

/-! ## What one call does -/

/-- Within the calendar the window starts where the subtraction says. -/
theorem daysAgo_of_representable {now : Instant} {days : Int}
    (h : (Call.cleanup now days).Representable) :
    daysAgo now days = ⟨now.nanos - secondsPerDay * days * nanosPerSecond⟩ := by
  have hw : windowStart? now (secondsPerDay * days) =
      some ⟨now.nanos - secondsPerDay * days * nanosPerSecond⟩ :=
    Instant.later?_eq_some.mpr ⟨Int.sub_eq_add_neg, h⟩
  rw [daysAgo, hw, Option.getD_some]

/-- A cleanup keeps the rows that it does not outdate. -/
theorem kept_iff {now : Instant} {days : Int}
    (h : (Call.cleanup now days).Representable) (row : Row) :
    daysAgo now days ≤ row.createdAt ↔ ¬(Call.cleanup now days).Outdates row := by
  rw [daysAgo_of_representable h]
  exact Int.not_lt.symm

/-- A cleanup that works deletes the rows that it outdates, and tells how many. -/
theorem cleanup_eq {l : Ledger} {now : Instant} {days : Int} (hf : l.failing = [])
    (h : (Call.cleanup now days).Representable) :
    l.cleanup now days =
      (.ok (l.rows.length - (l.rows.filter (fun row =>
        ¬(Call.cleanup now days).Outdates row)).length),
        { l with rows := l.rows.filter (fun row => ¬(Call.cleanup now days).Outdates row) }) := by
  have hk : ∀ row, decide (daysAgo now days ≤ row.createdAt) =
      decide ¬(Call.cleanup now days).Outdates row :=
    fun row => decide_eq_decide.mpr (kept_iff h row)
  simp only [cleanup, hf, List.not_mem_nil, if_false, hk]

theorem call_cleanup {l : Ledger} {now : Instant} {days : Int} (hf : l.failing = [])
    (h : (Call.cleanup now days).Representable) :
    l.call (.cleanup now days) =
      { l with rows := l.rows.filter (fun row => ¬(Call.cleanup now days).Outdates row) } := by
  show (l.cleanup now days).2 = _
  rw [cleanup_eq hf h]

/-- Which operations fail is not changed by any call. -/
theorem failing_call (l : Ledger) (c : Call) : (l.call c).failing = l.failing := by
  cases c with
  | create now report =>
    show (l.create now report).2.failing = l.failing
    unfold create
    split <;> rfl
  | insert row => rfl
  | cleanup now days =>
    show (l.cleanup now days).2.failing = l.failing
    unfold cleanup
    split <;> rfl

/-- A call keeps the rows that it does not outdate, in order, and puts the row it enters after
    them. -/
theorem rows_call {l : Ledger} {c : Call} (hf : l.failing = []) (h : c.Representable) :
    (l.call c).rows = l.rows.filter (fun row => ¬c.Outdates row) ++ (l.entered? c).toList := by
  cases c with
  | create now report =>
    have hall : l.rows.filter (fun row => ¬(Call.create now report).Outdates row) = l.rows :=
      List.filter_eq_self.mpr fun row _ => decide_eq_true (fun hd : False => hd)
    rw [hall]
    simp [call, entered?, create, insert, hf, Except.toOption]
  | insert row =>
    have hall : l.rows.filter (fun r => ¬(Call.insert row).Outdates r) = l.rows :=
      List.filter_eq_self.mpr fun r _ => decide_eq_true (fun hd : False => hd)
    rw [hall]
    rfl
  | cleanup now days =>
    rw [call_cleanup hf h]
    exact (List.append_nil _).symm

/-- A report is entered with all its fields as a row of its own, and nothing else changes. -/
theorem create_enters {l : Ledger} (hf : l.failing = []) (now : Instant) (report : Report) :
    (l.create now report).1 = .ok (Row.ofReport l.freshId report now) ∧
      l.entered? (.create now report) = some (Row.ofReport l.freshId report now) ∧
      (l.call (.create now report)).rows = l.rows ++ [Row.ofReport l.freshId report now] := by
  simp [call, entered?, create, insert, hf, Except.toOption]

/-! ## What a row of calls does -/

theorem failing_after (l : Ledger) (calls : List Call) : (l.after calls).failing = l.failing := by
  induction calls generalizing l with
  | nil => rfl
  | cons c later ih => rw [after_cons, ih, failing_call]

/-- An entry whose row none of the calls after it outdates. -/
def Lasting (entry : Row × List Call) : Prop := ∀ c ∈ entry.2, ¬c.Outdates entry.1

instance (entry : Row × List Call) : Decidable (Lasting entry) :=
  inferInstanceAs (Decidable (∀ c ∈ entry.2, ¬c.Outdates entry.1))

/-- A row lasts if no later cleanup outdates it. -/
theorem lasting_cons {row : Row} {c : Call} {later : List Call} :
    Lasting (row, c :: later) ↔ ¬c.Outdates row ∧ Lasting (row, later) :=
  List.forall_mem_cons

/-- The rows at the start that outlast a call and the calls after it. -/
theorem filter_lasting_cons (rows : List Row) (c : Call) (later : List Call) :
    rows.filter (fun row => Lasting (row, c :: later)) =
      (rows.filter (fun row => ¬c.Outdates row)).filter (fun row => Lasting (row, later)) := by
  rw [List.filter_filter]
  congr 1
  funext row
  rw [Bool.eq_iff_iff, Bool.and_eq_true, decide_eq_true_eq, decide_eq_true_eq, decide_eq_true_eq,
    lasting_cons, and_comm]

/-- The rows present after the calls: what is left of the first rows, then what is left of the rows
    entered. -/
theorem rows_after {l : Ledger} {calls : List Call} (hf : l.failing = [])
    (h : ∀ c ∈ calls, c.Representable) :
    (l.after calls).rows =
      l.rows.filter (fun row => Lasting (row, calls)) ++
        ((l.entries calls).filter (fun entry => Lasting entry)).map Prod.fst := by
  induction calls generalizing l with
  | nil =>
    have hall : l.rows.filter (fun row => Lasting (row, [])) = l.rows :=
      List.filter_eq_self.mpr fun row _ => decide_eq_true (List.forall_mem_nil _)
    rw [hall]
    exact (List.append_nil _).symm
  | cons c later ih =>
    rw [List.forall_mem_cons] at h
    have hrow : ∀ row : Option Row,
        row.toList.filter (fun r => Lasting (r, later)) =
          ((row.toList.map (fun r => (r, later))).filter (fun entry => Lasting entry)).map
            Prod.fst := by
      intro row
      rw [List.filter_map, List.map_map]
      exact (List.map_id _).symm
    rw [after_cons, ih ((failing_call l c).trans hf) h.2, rows_call hf h.1, List.filter_append,
      filter_lasting_cons, hrow, entries, List.filter_append, List.map_append, List.append_assoc]

/-- A cleanup answers the number of rows that it outdates, and that many fewer are there
    afterwards. -/
theorem cleanup_answer {l : Ledger} {now : Instant} {days : Int} (hf : l.failing = [])
    (h : (Call.cleanup now days).Representable) :
    (l.cleanup now days).1 = .ok (l.rows.countP (fun row => (Call.cleanup now days).Outdates row)) ∧
      (l.rows.countP (fun row => (Call.cleanup now days).Outdates row)) +
        (l.call (.cleanup now days)).rows.length =
        l.rows.length := by
  have hsum := List.length_eq_countP_add_countP (fun row =>
      decide ((Call.cleanup now days).Outdates row)) (l := l.rows)
  have hkept : (l.rows.filter (fun row => ¬(Call.cleanup now days).Outdates row)).length =
      l.rows.countP (fun row => ¬decide ((Call.cleanup now days).Outdates row) = true) := by
    rw [List.countP_eq_length_filter]
    simp only [decide_eq_true_eq]
  rw [call_cleanup hf h, cleanup_eq hf h]
  simp only [hkept]
  exact ⟨congrArg Except.ok (by omega), hsum.symm⟩

/-- The narrower of two windows at one moment outdates what either outdates. -/
theorem outdates_min {now : Instant} {d e : Int} {row : Row} :
    (Call.cleanup now (min d e)).Outdates row ↔ (Call.cleanup now d).Outdates row ∨
    (Call.cleanup now e).Outdates row := by
  simp only [Call.Outdates, secondsPerDay, nanosPerSecond]
  omega

/-- Two cleanups at one moment do what the one with the narrower window does. -/
theorem cleanup_twice {l : Ledger} {now : Instant} {d e : Int} (hf : l.failing = [])
    (hd : (Call.cleanup now d).Representable) (he : (Call.cleanup now e).Representable) :
    (l.call (.cleanup now d)).call (.cleanup now e) = l.call (.cleanup now (min d e)) := by
  have hm : (Call.cleanup now (min d e)).Representable := by
    rcases Int.le_total d e with hle | hle
    · rwa [Int.min_eq_left hle]
    · rwa [Int.min_eq_right hle]
  rw [call_cleanup ((failing_call l _).trans hf) he, call_cleanup hf hd, call_cleanup hf hm,
    List.filter_filter]
  simp only [outdates_min, not_or, Bool.decide_and, Bool.and_comm]

/-- **The ledger is append-only up to retention.**  Whatever calls are made, at whatever clock
readings: the rows present are the rows ever entered, unchanged and in order, less those that a
later cleanup outdates, where a report is entered with all its fields at the moment of its call;
every cleanup answers the number of rows it takes away; to clean up again at the same moment with a
window as wide takes nothing; and two cleanups at one moment, in either order, leave what the one
with the narrower window leaves. -/
theorem append_only_up_to_retention (l : Ledger) (calls : List Call) (hf : l.failing = [])
    (h : ∀ c ∈ calls, c.Representable) :
    (l.after calls).rows =
        ((l.rows.map (fun row => (row, calls)) ++ l.entries calls).filter
          fun entry => ∀ c ∈ entry.2, ¬c.Outdates entry.1).map Prod.fst ∧
      (∀ before now report later, calls = before ++ .create now report :: later →
        ((l.after before).create now report).1 =
          .ok (Row.ofReport (l.after before).freshId report now) ∧
          (l.after before).entered? (.create now report) =
            some (Row.ofReport (l.after before).freshId report now) ∧
          (l.after (before ++ [.create now report])).rows =
            (l.after before).rows ++ [Row.ofReport (l.after before).freshId report now]) ∧
      (∀ before now days later, calls = before ++ .cleanup now days :: later →
        ∃ removed, ((l.after before).cleanup now days).1 = .ok removed ∧
          removed = (l.after before).rows.countP (fun row => (Call.cleanup now days).Outdates row) ∧
          removed + (l.after (before ++ [.cleanup now days])).rows.length =
            (l.after before).rows.length) ∧
      (∀ now d e, (Call.cleanup now d).Representable → (Call.cleanup now e).Representable → d ≤ e →
        (((l.after calls).call (.cleanup now d)).cleanup now e).1 = .ok 0 ∧
          ((l.after calls).call (.cleanup now d)).call (.cleanup now e) =
            (l.after calls).call (.cleanup now d)) ∧
      ∀ now d e, (Call.cleanup now d).Representable → (Call.cleanup now e).Representable →
        ((l.after calls).call (.cleanup now d)).call (.cleanup now e) =
          (l.after calls).call (.cleanup now (min d e)) := by
  have hfa : ∀ made, (l.after made).failing = [] := fun made => (failing_after l made).trans hf
  refine ⟨?_, ?_, ?_, ?_, ?_⟩
  · -- rows that were there meet all the calls, those entered the ones after
    rw [rows_after hf h, List.filter_append, List.map_append]
    congr 1
    rw [List.filter_map, List.map_map]
    exact (List.map_id _).symm
  · intro before now report later _
    rw [after_append]
    exact create_enters (hfa before) now report
  · intro before now days later hc
    have hr : (Call.cleanup now days).Representable :=
      h _ (hc ▸ List.mem_append_right _ List.mem_cons_self)
    -- the answer is what the cleanup leaves less than before
    have ha := cleanup_answer (hfa before) hr
    refine ⟨_, ha.1, rfl, ?_⟩
    rw [after_append]
    exact ha.2
  · intro now d e hd he hle
    -- a shorter retention after a longer one finds nothing
    have htwice : ((l.after calls).call (.cleanup now d)).call (.cleanup now e) =
        (l.after calls).call (.cleanup now d) := by
      rw [cleanup_twice (hfa calls) hd he, Int.min_eq_left hle]
    have hfd : ((l.after calls).call (.cleanup now d)).failing = [] :=
      (failing_call _ _).trans (hfa calls)
    have ha := cleanup_answer hfd he
    rw [htwice] at ha
    exact ⟨ha.1.trans (congrArg Except.ok (by omega)), htwice⟩
  · intro now d e hd he
    exact cleanup_twice (hfa calls) hd he

/-- The start of a day, counted from the epoch. -/
def dayStart (day : Int) : Instant := ⟨day * secondsPerDay * nanosPerSecond⟩

/-- What a job that ran at the start of a day hands over. -/
def reportOn (job : String) (day : Int) : Report :=
  ⟨job, dayStart day, dayStart day, 0, true, "done", none, none⟩

/-- A row older than the first cleanup's window, one entered exactly where that window starts, and
one entered with an old date after it and before the second. -/
def sixWeeks : List Call :=
  [.insert (Row.ofReport ⟨0⟩ (reportOn "older" 0) (dayStart 0)),
    .create (dayStart 10) (reportOn "edge" 10), .cleanup (dayStart 40) 30,
    .insert (Row.ofReport ⟨1⟩ (reportOn "dated" 5) (dayStart 5)), .cleanup (dayStart 41) 35]

theorem append_only_up_to_retention_sixWeeks :
    (∀ c ∈ sixWeeks, c.Representable) ∧
      (({} : Ledger).entries sixWeeks).map (fun entry => entry.1.job) = ["older", "edge", "dated"] ∧
      (({} : Ledger).after sixWeeks).rows.map (fun row => row.job) = ["edge"] := by
  have hr : ∀ c ∈ sixWeeks, c.Representable := by decide
  have h := (append_only_up_to_retention {} sixWeeks rfl hr).1
  refine ⟨hr, rfl, ?_⟩
  rw [h]
  decide

end Ledger

end JobFleet
