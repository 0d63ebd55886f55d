/-
  JobFleet.Proofs.Schedule.Request: what every engine behind cron expressions makes of a request.

  A `CronEngine` may read whatever it likes, so long as it finds in the text of a proper request the
  pattern that is asked for. `readListed` does: the words of the text are its fields, the pieces of
  a field are its numbers, and each number is read from its digits.

  Main results:
    * `readListed_text` — the request is read back from its text.
    * `CronEngine.listed` — the engine that reads nothing else.
-/
import JobFleet.Proofs.Text.Numerals
import JobFleet.Schedule.Engine

namespace JobFleet.Schedule

open JobFleet.Text

/-! ## Requests -/

/-- Listed values are in bounds and in ascending order, and there is one at least. -/
def Asked.Proper (place : Place) : Asked → Prop
  | .every => True
  | .listed values =>
    values ≠ [] ∧ values.Pairwise (· < ·) ∧ ∀ v ∈ values, place.low ≤ v ∧ v ≤ place.top

/-- So they are in every place. -/
structure Request.Proper (r : Request) : Prop where
  minute : r.minute.Proper .minute
  hour : r.hour.Proper .hour
  day : r.day.Proper .day
  month : r.month.Proper .month
  weekday : r.weekday.Proper .weekday

/-- An engine behind cron expressions: how it reads them, and that it reads proper requests. -/
structure CronEngine where
  read : List Char → Except String Pattern
  read_text : ∀ {r : Request}, r.Proper → read r.text = .ok r.pattern

/-! ## Fields -/

section

variable {a : Asked} {place : Place} {shift : Nat}

/-- The number that is written for a value. -/
theorem comma_not_mem_toString (n : Nat) : ',' ∉ (toString n).toList :=
  fun h => absurd (isDigit_of_mem_toString h) (by decide)

/-- The pieces of a list of values are their numbers. -/
theorem pieces_text {values : List Nat} (hne : values ≠ []) (shift : Nat) :
    pieces (· == ',') ((Asked.listed values).text shift) =
      values.map (fun v => (toString (v + shift)).toList) := by
  refine pieces_intercalate (by simpa using hne) ?_
  intro t ht
  obtain ⟨v, -, rfl⟩ := List.mem_map.1 ht
  exact comma_not_mem_toString _

/-- A field is a word: it is not empty, and nothing in it is white space. -/
theorem Asked.isWord_text (h : a.Proper place) (shift : Nat) :
    a.text shift ≠ [] ∧ ∀ c ∈ a.text shift, isBlank c = false := by
  cases a with
  | every => exact ⟨List.cons_ne_nil _ _, fun c hc => List.mem_singleton.1 hc ▸ rfl⟩
  | listed values =>
    have hpieces := pieces_text h.1 shift
    constructor
    · intro hempty
      rw [hempty] at hpieces
      -- nothing has one piece, which is nothing, and no number is that
      have hnothing : [] ∈ values.map (fun v => (toString (v + shift)).toList) :=
        hpieces ▸ List.mem_singleton.2 rfl
      obtain ⟨v, -, hv⟩ := List.mem_map.1 hnothing
      exact toString_ne_nil _ hv
    · intro c hc
      obtain rfl | ⟨token, htoken, hdigit⟩ := mem_intercalate hc
      · rfl
      · obtain ⟨v, -, rfl⟩ := List.mem_map.1 htoken
        exact isBlank_of_isDigit (isDigit_of_mem_toString hdigit)

/-- A list of values is not a star. -/
theorem listed_ne_star {values : List Nat} (hne : values ≠ []) (shift : Nat) :
    (Asked.listed values).text shift ≠ ['*'] := by
  intro hstar
  have hpieces := pieces_text hne shift
  rw [hstar] at hpieces
  have hnumber : ['*'] ∈ values.map (fun v => (toString (v + shift)).toList) :=
    hpieces ▸ List.mem_singleton.2 rfl
  obtain ⟨v, -, hv⟩ := List.mem_map.1 hnumber
  exact absurd (isDigit_of_mem_toString (n := v + shift) (c := '*')
    (by rw [hv]; exact List.mem_singleton_self _)) (by decide)

/-- A proper field is read back from its text. -/
theorem readAsked_text (h : a.Proper place) (shift : Nat) :
    readAsked place shift (a.text shift) = .ok a := by
  cases a with
  | every => rfl
  | listed values =>
    obtain ⟨hne, -, hbounds⟩ := h
    have hreads : readNat? ∘ (fun v => (toString (v + shift)).toList) = fun v => pure (v + shift) :=
      funext fun v => readNat?_toString (v + shift)
    have hnumbers : (values.map fun v => (toString (v + shift)).toList).mapM readNat? =
        some (values.map (· + shift)) := by
      rw [List.mapM_map, hreads, List.mapM_pure]
      rfl
    have hin : (values.map (· + shift)).all
        (fun n => decide (place.low + shift ≤ n ∧ n ≤ place.top + shift)) = true := by
      rw [List.all_map, List.all_eq_true]
      intro v hv
      obtain ⟨hlow, hhigh⟩ := hbounds v hv
      exact decide_eq_true ⟨Nat.add_le_add_right hlow shift, Nat.add_le_add_right hhigh shift⟩
    have hback : (values.map (· + shift)).map (· - shift) = values := by
      rw [List.map_map]
      exact List.map_id'' (fun v => Nat.add_sub_cancel v shift) values
    unfold readAsked
    rw [if_neg (listed_ne_star hne shift), pieces_text hne, hnumbers]
    dsimp only
    rw [if_pos hin, hback]

end

/-! ## Expressions -/

/-- A proper request is read back from its text. -/
theorem readListed_text {r : Request} (h : r.Proper) : readListed r.text = .ok r.pattern := by
  obtain ⟨hminute, hhour, hday, hmonth, hweekday⟩ := h
  have hwords : words r.text =
      [['0'], r.minute.text 0, r.hour.text 0, r.day.text 0, r.month.text 0, r.weekday.text 1] := by
    refine words_intercalate ?_ ?_
    · simp only [List.forall_mem_cons]
      exact ⟨List.cons_ne_nil _ _, (Asked.isWord_text hminute 0).1, (Asked.isWord_text hhour 0).1,
        (Asked.isWord_text hday 0).1, (Asked.isWord_text hmonth 0).1,
        (Asked.isWord_text hweekday 1).1, nofun⟩
    · simp only [List.forall_mem_cons]
      exact ⟨⟨rfl, nofun⟩, (Asked.isWord_text hminute 0).2, (Asked.isWord_text hhour 0).2,
        (Asked.isWord_text hday 0).2, (Asked.isWord_text hmonth 0).2,
        (Asked.isWord_text hweekday 1).2, nofun⟩
  unfold readListed
  rw [hwords]
  simp only [readAsked_text hminute, readAsked_text hhour, readAsked_text hday,
    readAsked_text hmonth, readAsked_text hweekday]
  rfl

/-- The engine that reads requests and nothing else. -/
def CronEngine.listed : CronEngine := ⟨readListed, readListed_text⟩

end JobFleet.Schedule
