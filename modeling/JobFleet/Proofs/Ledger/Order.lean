/-
  JobFleet.Proofs.Ledger.Order: rows by start, and the row that started last.

  Lists give the rows by start, the last first, and keep rows that started together in order of
  entry; `IsNewestFirst` says so without sorting.  The row that started last is searched for in one
  pass, apart from that.  What the two have in common are the rows with the greatest start
  (`newest`): a list begins with the first of them, and the search ends with the last.

  Main results:
    * `isNewestFirst_newestFirst` — sorting gives a list in that order.
    * `head?_of_isNewestFirst`, `latest?_eq` — where a list begins, and what the search finds.
-/
import Mathlib.Data.List.Induction
import JobFleet.Ledger.Memory

namespace JobFleet

open JobFleet.Time

namespace Row

variable {rows sorted : List Row} {r s : Row}

/-- The rows by start, the last first, those that started together in order. -/
structure IsNewestFirst (rows sorted : List Row) : Prop where
  same : sorted.Perm rows
  descending : sorted.Pairwise (fun a b => b.startedAt ≤ a.startedAt)
  stable : ∀ moment : Instant,
    sorted.filter (fun r => r.startedAt = moment) = rows.filter (fun r => r.startedAt = moment)

/-- The rows with the greatest start, in order. -/
def newest (rows : List Row) :
    List Row := rows.filter (fun r => ∀ s ∈ rows, s.startedAt ≤ r.startedAt)

/-- The newest rows are those that no row started after. -/
theorem mem_newest_iff : r ∈ newest rows ↔ r ∈ rows ∧ ∀ s ∈ rows, s.startedAt ≤ r.startedAt := by
  simp [newest]

/-! ## Sorting -/

/-- Sorting puts the newest rows first. -/
theorem isNewestFirst_newestFirst (rows : List Row) : IsNewestFirst rows (newestFirst rows) := by
  have htrans : ∀ a b c : Row, decide (b.startedAt ≤ a.startedAt) = true →
    decide (c.startedAt ≤ b.startedAt) = true →
      decide (c.startedAt ≤ a.startedAt) = true := by
    intro a b c hab hbc
    exact decide_eq_true (Int.le_trans (of_decide_eq_true hbc) (of_decide_eq_true hab))
  have htotal : ∀ a b : Row, (decide (b.startedAt ≤ a.startedAt) ||
      decide (a.startedAt ≤ b.startedAt)) = true := by
    intro a b
    rw [Bool.or_eq_true, decide_eq_true_eq, decide_eq_true_eq]
    exact Int.le_total b.startedAt.nanos a.startedAt.nanos
  have hperm : (newestFirst rows).Perm rows := List.mergeSort_perm _ _
  refine ⟨hperm, ?_, ?_⟩
  · exact (List.pairwise_mergeSort htrans htotal rows).imp of_decide_eq_true
  · intro moment
    -- rows of one moment are in order already, so they stay a sublist, and there are as many of
    -- them
    have htogether : (rows.filter (fun r => r.startedAt = moment)).Pairwise
        (fun a b => decide (b.startedAt ≤ a.startedAt) = true) := by
      refine List.pairwise_of_forall_mem_list ?_
      intro a ha b hb
      have hfirst : a.startedAt = moment := of_decide_eq_true (List.mem_filter.1 ha).2
      have hsecond : b.startedAt = moment := of_decide_eq_true (List.mem_filter.1 hb).2
      rw [hfirst, hsecond]
      exact decide_eq_true (Int.le_refl _)
    have hsub := (List.sublist_mergeSort htrans htotal htogether List.filter_sublist).filter
      (fun r => r.startedAt = moment)
    rw [List.filter_filter] at hsub
    simp only [Bool.and_self] at hsub
    exact (hsub.eq_of_length (hperm.filter _).length_eq.symm).symm

/-- A list begins with the first of the newest rows. -/
theorem head?_of_isNewestFirst (h : IsNewestFirst rows sorted) :
    sorted.head? = (newest rows).head? := by
  cases sorted with
  | nil =>
    have hnil : rows = [] := h.same.nil_eq.symm
    rw [hnil]
    rfl
  | cons first later =>
    have hmem : first ∈ rows := h.same.mem_iff.1 List.mem_cons_self
    have hgreatest : ∀ s ∈ rows, s.startedAt ≤ first.startedAt := by
      intro s hs
      rcases List.mem_cons.1 (h.same.mem_iff.2 hs) with rfl | hlater
      · exact Int.le_refl _
      · exact List.rel_of_pairwise_cons h.descending hlater
    have hnewest : newest rows = rows.filter (fun r => r.startedAt = first.startedAt) := by
      refine List.filter_congr ?_
      intro r hr
      refine decide_eq_decide.2 ⟨fun hall =>
        Instant.eq_of_le (hgreatest r hr) (hall first hmem), ?_⟩
      intro hequal
      rw [hequal]
      exact hgreatest
    rw [hnewest, ← h.stable, List.filter_cons_of_pos (by simp)]
    rfl

/-- Some row is the newest if there is any. -/
theorem newest_eq_nil_iff : newest rows = [] ↔ rows = [] := by
  have hlist := isNewestFirst_newestFirst rows
  rw [← List.head?_eq_none_iff, ← head?_of_isNewestFirst hlist, List.head?_eq_none_iff]
  constructor
  · intro hnil
    rw [hnil] at hlist
    exact hlist.same.nil_eq.symm
  · rintro rfl
    exact hlist.same.eq_nil

/-! ## Searching -/

/-- A row that is entered becomes the latest unless the latest started after it. -/
theorem latest?_concat (rows : List Row) (r : Row) : latest? (rows ++ [r]) =
    match latest? rows with
    | none => some r
    | some best => if best.startedAt ≤ r.startedAt then some r else some best :=
  List.foldl_append

/-- A row that did not start before the others is the last of the newest rows once it is entered. -/
theorem getLast?_newest_of_le (h : ∀ s ∈ rows, s.startedAt ≤ r.startedAt) :
    (newest (rows ++ [r])).getLast? = some r := by
  have hgreatest : ∀ s ∈ rows ++ [r], s.startedAt ≤ r.startedAt := by
    intro s hs
    rcases List.mem_append.1 hs with hbefore | hlast
    · exact h s hbefore
    · rw [List.mem_singleton.1 hlast]
      exact Int.le_refl _
  unfold newest
  rw [List.filter_append, List.filter_cons_of_pos (by simpa using hgreatest), List.filter_nil,
    List.getLast?_concat]

/-- A row that started before one of the newest does not count. -/
theorem newest_concat_of_lt (hs : s ∈ newest rows) (h : r.startedAt < s.startedAt) :
    newest (rows ++ [r]) = newest rows := by
  obtain ⟨hmem, hgreatest⟩ := mem_newest_iff.1 hs
  have hnot : ¬∀ x ∈ rows ++ [r], x.startedAt ≤ r.startedAt := by
    intro hall
    exact absurd (hall s (List.mem_append_left _ hmem)) (Int.not_le.2 h)
  unfold newest
  rw [List.filter_append, List.filter_cons_of_neg (by simpa using hnot),
    List.filter_nil, List.append_nil]
  refine List.filter_congr ?_
  intro x hx
  refine decide_eq_decide.2 ⟨fun hall y hy => hall y (List.mem_append_left _ hy), ?_⟩
  intro hall y hy
  rcases List.mem_append.1 hy with hbefore | hlast
  · exact hall y hbefore
  · rw [List.mem_singleton.1 hlast]
    exact Int.le_of_lt (Int.lt_of_lt_of_le h (hall s hmem))

/-- The search ends with the last of the newest rows. -/
theorem latest?_eq (rows : List Row) : latest? rows = (newest rows).getLast? := by
  induction rows using List.reverseRecOn with
  | nil => rfl
  | append_singleton rows r ih =>
    rw [latest?_concat, ih]
    cases hlast : (newest rows).getLast? with
    | none =>
      have hnil : rows = [] := newest_eq_nil_iff.1 (List.getLast?_eq_none_iff.1 hlast)
      rw [hnil]
      refine Eq.symm (getLast?_newest_of_le ?_)
      intro s hs
      cases hs
    | some best =>
      have hbest := List.mem_of_getLast? hlast
      obtain ⟨-, hgreatest⟩ := mem_newest_iff.1 hbest
      show (if best.startedAt ≤ r.startedAt then some r else some best) = _
      split
      · rename_i hle
        exact (getLast?_newest_of_le fun s hs => Int.le_trans (hgreatest s hs) hle).symm
      · rename_i hlt
        rw [newest_concat_of_lt hbest (Int.not_le.1 hlt), hlast]

end Row

/-! ## Ledgers -/

/-- What a run of no length hands over. -/
def Report.momentary (job : String) (second : Int) (message : String) : Report :=
  ⟨job, .ofSeconds second, .ofSeconds second, 0, true, message, none, none⟩

namespace Ledger

/-- A ledger with these runs, entered one after the other at one moment. -/
def ofReports (reports : List Report) : Ledger :=
  reports.foldl (fun l report => (l.create (.ofSeconds 9) report).2) {}

/-- A ledger of which no operation fails gives its answers. -/
theorem answer_eq {α : Type} {l : Ledger} (hf : l.failing = [])
    (operation : LedgerOperation) (value : α) :
    l.answer operation value = .ok value := by
  unfold answer
  rw [hf]
  rfl

end Ledger

end JobFleet
