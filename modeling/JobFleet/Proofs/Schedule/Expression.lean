/-
  JobFleet.Proofs.Schedule.Expression: which cron expressions are accepted, and what they stand for.

  An expression is five fields between white space, each in the grammar of its place.  The trigger
  made from it keeps the texts of the fields and carries, for every place, the values that its field
  runs through.  An expression outside the grammar is refused with the number of its fields, or else
  with the first fault of the first field that has one.

  What the engine is asked for is always in bounds, so no engine finds anything wrong with it, and
  all of them give the same trigger.

  Main results:
    * `patterns_of_requests` — every engine reads the requests of an expression of the grammar.
    * `parse_eq_ok_iff_of` — the expressions that are accepted, and the trigger that is made.
    * `parse_eq_error_iff_of` — the error of every other expression.
    * `parse_follows_grammar` — both, with the values that the trigger carries.
    * `parse_eq_parse` — the engine makes no difference.
-/
import JobFleet.Proofs.Schedule.Grammar
import JobFleet.Proofs.Schedule.Request
import JobFleet.Schedule.Cron

namespace JobFleet.Schedule

open JobFleet.Text JobFleet.Time

/-! ## Expressions of the grammar -/

/-- The places in the order of an expression. -/
def places : List Place := [.minute, .hour, .day, .month, .weekday]

/-- The expression has five fields, and each of them is in the grammar of its place. -/
structure Reads (expression : String) (fields : Place → List Char)
    (parts : Place → List Part) : Prop where
  words : HasWords expression.toList (places.map fields)
  field : ∀ place, IsField place (fields place) (parts place)

/-- The error for an expression outside the grammar. -/
inductive Refused (expression : String) : ConfigError → Prop
  | count {found : List (List Char)} (hwords : HasWords expression.toList found)
    (hcount : found.length ≠ 5) :
      Refused expression (.cronFieldCount expression found.length)
  | field {fields : Place → List Char} {parts : List (List Part)}
    {before after : List Place} {place : Place}
      {fault : FieldFault} (hwords : HasWords expression.toList (places.map fields))
      (hplace : places = before ++ place :: after)
      (hbefore : List.Forall₂ (fun earlier parts =>
        IsField earlier (fields earlier) parts) before parts)
      (hfault : FieldHasFault place (fields place) fault) :
      Refused expression (.invalidCronField place.name (String.ofList (fields place)) fault.message)

/-! ## Values -/

/-- The values of a pattern at a place. -/
def Pattern.values (p : Pattern) : Place → List Nat
  | .minute => p.minutes
  | .hour => p.hours
  | .day => p.days
  | .month => p.months
  | .weekday => p.weekdays

/-- The value is one that the field at the place stands for; days of the week are counted modulo
    7. -/
def Allows (parts : Place → List Part) : Place → Nat → Prop
  | .weekday, d => ∃ v, Means (parts .weekday) v ∧ v % 7 = d
  | place, v => Means (parts place) v

/-- The same with one place set free. -/
def AllowsBut (free : Place) (parts : Place → List Part) (place : Place) (v : Nat) : Prop :=
  if place = free then place.low ≤ v ∧ v ≤ place.top else Allows parts place v

/-- The pattern has just these values. -/
def Pattern.Has (p : Pattern) (allowed : Place → Nat → Prop) : Prop :=
  ∀ place v, v ∈ p.values place ↔ allowed place v

/-- At each place a pattern has values in bounds, one at least, in ascending order. -/
structure Pattern.WellFormed (p : Pattern) : Prop where
  ascending : ∀ place, (p.values place).Pairwise (· < ·)
  exists_mem : ∀ place, ∃ v, v ∈ p.values place
  bounds : ∀ place, ∀ v ∈ p.values place, place.low ≤ v ∧ v ≤ place.top

/-- Both the day of the month and the day of the week are restricted. -/
def RestrictsBothDays (fields : Place → List Char) : Prop :=
  (fields .day).head? ≠ some '*' ∧ (fields .weekday).head? ≠ some '*'

instance (fields : Place → List Char) : Decidable (RestrictsBothDays fields) :=
  inferInstanceAs (Decidable ((fields .day).head? ≠ some '*' ∧ (fields .weekday).head? ≠ some '*'))

/-- The text of the field at a place. -/
def CronTrigger.text (c : CronTrigger) : Place → String
  | .minute => c.minute
  | .hour => c.hour
  | .day => c.day
  | .month => c.month
  | .weekday => c.weekday

/-- The trigger keeps the texts of the fields and carries the values they stand for.  When both
    kinds of days are restricted, a day that one of them allows will do: one pattern leaves the days
    of the week free, the other those of the month. -/
structure CronTrigger.Carries (c : CronTrigger) (zone : Zone) (fields : Place → List Char)
    (parts : Place → List Part) :
    Prop where
  zone : c.zone = zone
  text : ∀ place, c.text place = String.ofList (fields place)
  single : ¬ RestrictsBothDays fields → ∃ p, c.patterns = [p] ∧ p.Has (Allows parts)
  double : RestrictsBothDays fields →
    ∃ p q, c.patterns = [p, q] ∧ p.Has (AllowsBut .weekday parts) ∧ q.Has (AllowsBut .day parts)
  wellFormed : ∀ p ∈ c.patterns, p.WellFormed

/-! ## Triggers -/

section Triggers

variable {fields : Place → List Char} {parts : Place → List Part} {zone : Zone}

/-- The values at a place, as a pattern keeps them. -/
def valuesAt (parts : Place → List Part) : Place → List Nat
  | .weekday => weekdayValues (parts .weekday)
  | place => fieldValues place (parts place)

/-- The pattern of all fields. -/
def patternOf (parts : Place → List Part) : Pattern :=
  ⟨valuesAt parts .minute, valuesAt parts .hour, valuesAt parts .day, valuesAt parts .month,
    valuesAt parts .weekday⟩

/-- The trigger of an expression with these fields. -/
def triggerOf (zone : Zone) (fields : Place → List Char) (parts : Place → List Part) :
    CronTrigger where
  minute := String.ofList (fields .minute)
  hour := String.ofList (fields .hour)
  day := String.ofList (fields .day)
  month := String.ofList (fields .month)
  weekday := String.ofList (fields .weekday)
  zone := zone
  patterns :=
    if isRestricted (fields .day) && isRestricted (fields .weekday) then
      [{ patternOf parts with weekdays := Place.weekday.values },
        { patternOf parts with days := Place.day.values }]
    else [patternOf parts]

/-- The reader looks at the first characters of both kinds of days. -/
theorem restrictsBothDays_iff :
    (isRestricted (fields .day) && isRestricted (fields .weekday)) = true ↔
    RestrictsBothDays fields := by
  unfold isRestricted RestrictsBothDays
  rw [Bool.and_eq_true, bne_iff_ne, bne_iff_ne]

/-- The values of a pattern at a place are those that its field allows. -/
theorem mem_valuesAt (h : ∀ place, IsField place (fields place) (parts place))
    (place : Place) (v : Nat) :
    v ∈ valuesAt parts place ↔ Allows parts place v := by
  have hfield : ∀ place v, v ∈ fieldValues place (parts place) ↔ Means (parts place) v :=
    fun place v => (h place).mem_fieldValues
  cases place with
  | weekday =>
    show v ∈ weekdayValues (parts .weekday) ↔ ∃ w, Means (parts .weekday) w ∧ w % 7 = v
    unfold weekdayValues
    simp only [List.mem_filter, List.mem_range, List.any_eq_true, hfield, beq_iff_eq]
    refine and_iff_right_of_imp ?_
    rintro ⟨w, -, rfl⟩
    exact Nat.mod_lt _ (by decide)
  | minute => exact hfield _ _
  | hour => exact hfield _ _
  | day => exact hfield _ _
  | month => exact hfield _ _

/-- They are in ascending order. -/
theorem valuesAt_ascending (place : Place) : (valuesAt parts place).Pairwise (· < ·) := by
  cases place with
  | weekday => exact List.Pairwise.filter _ List.pairwise_lt_range
  | minute => exact fieldValues_ascending _ _
  | hour => exact fieldValues_ascending _ _
  | day => exact fieldValues_ascending _ _
  | month => exact fieldValues_ascending _ _

/-- An allowed value is one of its place. -/
theorem Allows.bounds (h : ∀ place, IsField place (fields place) (parts place))
    {place : Place} {v : Nat} (hv : Allows parts place v) : place.low ≤ v ∧ v ≤ place.top := by
  cases place with
  | weekday =>
    obtain ⟨w, -, rfl⟩ := hv
    exact ⟨Nat.zero_le _, Nat.le_of_lt_succ (Nat.mod_lt _ (by decide))⟩
  | minute => exact (h .minute).bounds hv
  | hour => exact (h .hour).bounds hv
  | day => exact (h .day).bounds hv
  | month => exact (h .month).bounds hv

/-- Every field allows a value. -/
theorem exists_allows (h : ∀ place, IsField place (fields place) (parts place)) (place : Place) :
    ∃ v, Allows parts place v := by
  obtain ⟨v, hv⟩ := (h place).exists_means
  cases place with
  | weekday => exact ⟨v % 7, v, hv, rfl⟩
  | minute => exact ⟨v, hv⟩
  | hour => exact ⟨v, hv⟩
  | day => exact ⟨v, hv⟩
  | month => exact ⟨v, hv⟩

/-- The values at a place, as a pattern with one place set free keeps them. -/
def valuesBut (free : Place) (parts : Place → List Part) (place : Place) : List Nat :=
  if place = free then place.values else valuesAt parts place

/-- The values of a place are those within its bounds. -/
theorem Place.mem_values {place : Place} {v : Nat} : v ∈ place.values ↔
    place.low ≤ v ∧ v ≤ place.top := by
  unfold values
  rw [List.mem_map]
  constructor
  · rintro ⟨i, hi, rfl⟩
    have hlt := List.mem_range.1 hi
    omega
  · rintro ⟨hlow, hhigh⟩
    exact ⟨v - place.low, List.mem_range.2 (by omega), by omega⟩

/-- With one place set free, that place has all its values. -/
theorem mem_valuesBut (h : ∀ place, IsField place (fields place) (parts place))
    (free place : Place) (v : Nat) :
    v ∈ valuesBut free parts place ↔ AllowsBut free parts place v := by
  unfold valuesBut AllowsBut
  split
  · exact Place.mem_values
  · exact mem_valuesAt h place v

theorem valuesBut_ascending (free place : Place) :
    (valuesBut free parts place).Pairwise (· < ·) := by
  unfold valuesBut
  split
  · exact List.pairwise_lt_range.map _ (fun _ _ hlt => Nat.add_lt_add_right hlt _)
  · exact valuesAt_ascending place

theorem AllowsBut.bounds (h : ∀ place, IsField place (fields place) (parts place))
    {free place : Place} {v : Nat} (hv : AllowsBut free parts place v) :
    place.low ≤ v ∧ v ≤ place.top := by
  unfold AllowsBut at hv
  split at hv
  · exact hv
  · exact hv.bounds h

theorem exists_allowsBut (h : ∀ place, IsField place (fields place) (parts place))
    (free place : Place) :
    ∃ v, AllowsBut free parts place v := by
  unfold AllowsBut
  split
  · exact ⟨place.low, Nat.le_refl _, by cases place <;> decide⟩
  · exact exists_allows h place

/-- The pattern of all fields keeps the values of each. -/
theorem values_patternOf (place : Place) :
    (patternOf parts).values place = valuesAt parts place := by
  cases place <;> rfl

/-- Setting the days of the week free changes no other place. -/
theorem values_anyWeekday (place : Place) :
    { patternOf parts with weekdays := Place.weekday.values }.values place =
      valuesBut .weekday parts place := by
  cases place <;> rfl

theorem values_anyDay (place : Place) :
    { patternOf parts with days := Place.day.values }.values place =
      valuesBut .day parts place := by
  cases place <;> rfl

/-- A pattern that keeps the values of the fields at all places but one is well formed. -/
theorem wellFormed_of_values (h : ∀ place, IsField place (fields place) (parts place)) {p : Pattern}
    (free : Place) (hvalues : ∀ place, p.values place = valuesBut free parts place) :
    p.WellFormed := by
  constructor
  case ascending =>
    intro place
    rw [hvalues]
    exact valuesBut_ascending free place
  case exists_mem =>
    intro place
    obtain ⟨v, hv⟩ := exists_allowsBut h free place
    exact ⟨v, by rw [hvalues]; exact (mem_valuesBut h free place v).2 hv⟩
  case bounds =>
    intro place v hv
    rw [hvalues] at hv
    exact ((mem_valuesBut h free place v).1 hv).bounds h

/-- So is the pattern of all fields. -/
theorem wellFormed_patternOf (h : ∀ place, IsField place (fields place) (parts place)) :
    (patternOf parts).WellFormed := by
  constructor
  case ascending =>
    intro place
    rw [values_patternOf]
    exact valuesAt_ascending place
  case exists_mem =>
    intro place
    obtain ⟨v, hv⟩ := exists_allows h place
    exact ⟨v, by rw [values_patternOf]; exact (mem_valuesAt h place v).2 hv⟩
  case bounds =>
    intro place v hv
    rw [values_patternOf] at hv
    exact ((mem_valuesAt h place v).1 hv).bounds h

/-- The trigger of an expression carries what its fields stand for. -/
theorem carries_triggerOf (h : ∀ place, IsField place (fields place) (parts place)) :
    (triggerOf zone fields parts).Carries zone fields parts := by
  constructor
  case zone => rfl
  case text =>
    intro place
    cases place <;> rfl
  case single =>
    intro hsingle
    -- one pattern with the values of all fields
    refine ⟨patternOf parts, if_neg (fun hboth => hsingle (restrictsBothDays_iff.1 hboth)), ?_⟩
    intro place v
    rw [values_patternOf]
    exact mem_valuesAt h place v
  case double =>
    intro hdouble
    -- two patterns, each with one kind of days set free
    refine ⟨_, _, if_pos (restrictsBothDays_iff.2 hdouble), ?_, ?_⟩
    · intro place v
      rw [values_anyWeekday]
      exact mem_valuesBut h .weekday place v
    · intro place v
      rw [values_anyDay]
      exact mem_valuesBut h .day place v
  case wellFormed =>
    intro p hp
    unfold triggerOf at hp
    simp only at hp
    split at hp
    · rcases List.mem_cons.1 hp with rfl | hp
      · exact wellFormed_of_values h .weekday values_anyWeekday
      · obtain rfl := List.mem_singleton.1 hp
        exact wellFormed_of_values h .day values_anyDay
    · obtain rfl := List.mem_singleton.1 hp
      exact wellFormed_patternOf h

end Triggers

/-! ## Requests -/

section Requests

variable {fields : Place → List Char} {parts : Place → List Part}

/-- What is asked for in a place. -/
def askedAt (fields : Place → List Char) (parts : Place → List Part) (place : Place) : Asked :=
  askFor (fields place) (valuesAt parts place)

/-- What is asked for in all of them. -/
def requestOf (fields : Place → List Char) (parts : Place → List Part) : Request :=
  ⟨askedAt fields parts .minute, askedAt fields parts .hour, askedAt fields parts .day,
    askedAt fields parts .month, askedAt fields parts .weekday⟩

/-- The requests that an expression with these fields makes. -/
def requestsOf (fields : Place → List Char) (parts : Place → List Part) : List Request :=
  if isRestricted (fields .day) && isRestricted (fields .weekday) then
    [{ requestOf fields parts with weekday := .every },
      { requestOf fields parts with day := .every }]
  else [requestOf fields parts]

/-- A star stands for every value of its place. -/
theorem valuesAt_of_star {place : Place} (h : IsField place ['*'] (parts place)) :
    valuesAt parts place = place.values := by
  have hread : parseField place ['*'] = .ok [⟨place.low, place.high, 1⟩] := by cases place <;> rfl
  have hparts : parts place = [⟨place.low, place.high, 1⟩] :=
    Except.ok.inj ((parseField_eq_ok_iff.2 h).symm.trans hread)
  have hvalues : valuesAt parts place =
      valuesAt (fun place => [⟨place.low, place.high, 1⟩]) place := by
    cases place <;> simp only [valuesAt, hparts]
  rw [hvalues]
  cases place <;> decide

/-- So asking for a star is asking for the values of the field. -/
theorem values_askedAt (h : ∀ place, IsField place (fields place) (parts place)) (place : Place) :
    (askedAt fields parts place).values place = valuesAt parts place := by
  unfold askedAt askFor
  split
  · rename_i hstar
    exact (valuesAt_of_star (hstar ▸ h place)).symm
  · rfl

/-- What is asked for in a place is a list of values in bounds, or everything. -/
theorem proper_askedAt (h : ∀ place, IsField place (fields place) (parts place)) (place : Place) :
    (askedAt fields parts place).Proper place := by
  unfold askedAt askFor
  split
  · trivial
  · refine ⟨?_, valuesAt_ascending place, fun v hv => ((mem_valuesAt h place v).1 hv).bounds h⟩
    obtain ⟨v, hv⟩ := exists_allows h place
    exact List.ne_nil_of_mem ((mem_valuesAt h place v).2 hv)

/-- So the whole request is proper. -/
theorem proper_requestOf (h : ∀ place, IsField place (fields place) (parts place)) :
    (requestOf fields parts).Proper :=
  ⟨proper_askedAt h _, proper_askedAt h _, proper_askedAt h _, proper_askedAt h _,
    proper_askedAt h _⟩

/-- And what it asks for is the pattern of all fields. -/
theorem pattern_requestOf (h : ∀ place, IsField place (fields place) (parts place)) :
    (requestOf fields parts).pattern = patternOf parts := by
  unfold Request.pattern requestOf patternOf
  simp only [values_askedAt h]

/-- Every engine reads the requests of an expression of the grammar, and finds the patterns of its
    trigger. -/
theorem patterns_of_requests (engine : CronEngine)
    (h : ∀ place, IsField place (fields place) (parts place)) (expression : String) (zone : Zone) :
    (requestsOf fields parts).mapM (askEngine engine.read expression) =
      .ok (triggerOf zone fields parts).patterns := by
  have hproper := proper_requestOf h
  have hpattern := pattern_requestOf h
  have hasks : ∀ {r : Request}, r.Proper → askEngine engine.read expression r = .ok r.pattern := by
    intro r hr
    unfold askEngine
    rw [engine.read_text hr]
    rfl
  unfold requestsOf triggerOf
  dsimp only
  split
  · have hweekday : { requestOf fields parts with weekday := .every }.Proper :=
      { hproper with weekday := trivial }
    have hday : { requestOf fields parts with day := .every }.Proper :=
      { hproper with day := trivial }
    rw [List.mapM_cons, hasks hweekday, List.mapM_cons, hasks hday, ← hpattern]
    rfl
  · rw [List.mapM_cons, hasks hproper, hpattern]
    rfl

end Requests

/-! ## Reading an expression -/

section Reading

variable {engine : CronEngine} {expression : String} {zone : Zone} {c : CronTrigger}
    {e : ConfigError}
variable {place : Place} {raw : List Char} {parts : List Part}

/-- A field is read if it is in the grammar of its place. -/
theorem fieldAt_eq_ok_iff : fieldAt place raw = .ok parts ↔ IsField place raw parts := by
  unfold fieldAt
  rw [← parseField_eq_ok_iff]
  split
  · rename_i hread
    simp [hread]
  · rename_i hread
    simp [hread]

/-- Any other field is refused with its place, its text and its first fault. -/
theorem fieldAt_eq_error_iff : fieldAt place raw = .error e ↔
    ∃ fault, FieldHasFault place raw fault ∧
    e = .invalidCronField place.name (String.ofList raw) fault.message := by
  unfold fieldAt
  simp only [← parseField_eq_error_iff]
  split
  · rename_i hread
    simp [hread]
  · rename_i hread
    simp [hread, eq_comm]

/-- A list with an element for each place. -/
theorem exists_map_places {α : Type} {found : List α} (h : found.length = places.length) :
    ∃ f : Place → α, found = places.map f := by
  match found, h with
  | [minute, hour, day, month, weekday], _ =>
    refine ⟨fun place => match place with
      | .minute => minute
      | .hour => hour
      | .day => day
      | .month => month
      | .weekday => weekday, rfl⟩

/-- The fields are read one after the other, and then the engine is asked. -/
theorem parse_of_fields {fields : Place → List Char}
    (h : words expression.toList = places.map fields) :
    CronTrigger.parse expression zone engine.read =
      (places.mapM fun place => fieldAt place (fields place)) >>= fun lists =>
        (requestsOf fields fun place => lists.getD (places.idxOf place) []).mapM
          (askEngine engine.read expression) >>=
          fun patterns =>
            .ok { triggerOf zone fields (fun place =>
                    lists.getD (places.idxOf place) []) with patterns := patterns } := by
  unfold CronTrigger.parse
  rw [h]
  simp only [places, List.map_cons, List.map_nil, List.mapM_cons, List.mapM_nil,
    bind_assoc, pure_bind]
  rfl

/-- When all fields are of the grammar, the engine is no obstacle. -/
theorem parse_of_lists {fields : Place → List Char} {parts : Place → List Part}
    (h : ∀ place, IsField place (fields place) (parts place)) :
    ((requestsOf fields fun place => (places.map parts).getD (places.idxOf place) []).mapM
        (askEngine engine.read expression) >>= fun patterns => Except.ok
      { triggerOf zone fields (fun place =>
          (places.map parts).getD (places.idxOf place) []) with patterns := patterns }) =
      .ok (triggerOf zone fields parts) := by
  have hparts : (fun place => (places.map parts).getD (places.idxOf place) []) = parts := by
    funext place
    cases place <;> rfl
  rw [hparts, patterns_of_requests engine h expression zone]
  rfl

/-- An expression that does not have five fields is refused with their number. -/
theorem parse_of_count (h : (words expression.toList).length ≠ places.length) :
    CronTrigger.parse expression zone engine.read =
      .error (.cronFieldCount expression (words expression.toList).length) := by
  unfold CronTrigger.parse
  split
  · rename_i hwords
    rw [hwords] at h
    exact absurd rfl h
  · rfl

/-- Fields that can be read are of the grammar. -/
theorem exists_parts {fields : Place → List Char} {lists : List (List Part)}
    (h : (places.mapM fun place => fieldAt place (fields place)) = .ok lists) :
    ∃ parts : Place → List Part, lists = places.map parts ∧
    ∀ place, IsField place (fields place) (parts place) := by
  have hread := mapM_eq_ok_iff.1 h
  obtain ⟨parts, rfl⟩ := exists_map_places hread.length_eq.symm
  rw [List.forall₂_map_right_iff, List.forall₂_same] at hread
  exact ⟨parts, rfl, fun place => fieldAt_eq_ok_iff.1 (hread place (by cases place <;> decide))⟩

/-- The expressions of the grammar are accepted, whichever engine is asked. -/
theorem parse_eq_ok_iff_of (engine : CronEngine) :
    CronTrigger.parse expression zone engine.read = .ok c ↔
    ∃ fields parts, Reads expression fields parts ∧ c = triggerOf zone fields parts := by
  constructor
  · intro h
    by_cases hcount : (words expression.toList).length = places.length
    · obtain ⟨fields, hfields⟩ := exists_map_places hcount
      rw [parse_of_fields hfields, bind_eq_ok_iff] at h
      obtain ⟨lists, hlists, h⟩ := h
      obtain ⟨parts, rfl, hfield⟩ := exists_parts hlists
      rw [parse_of_lists hfield] at h
      cases h
      exact ⟨fields, parts, ⟨words_eq_iff.1 hfields, hfield⟩, rfl⟩
    · rw [parse_of_count hcount] at h
      cases h
  · rintro ⟨fields, parts, hreads, rfl⟩
    rw [parse_of_fields (words_eq_iff.2 hreads.words), bind_eq_ok_iff]
    refine ⟨places.map parts, mapM_eq_ok_iff.2 ?_, parse_of_lists hreads.field⟩
    rw [List.forall₂_map_right_iff, List.forall₂_same]
    exact fun place _ => fieldAt_eq_ok_iff.2 (hreads.field place)

/-- Every other expression is refused. -/
theorem parse_eq_error_iff_of (engine : CronEngine) :
    CronTrigger.parse expression zone engine.read = .error e ↔ Refused expression e := by
  by_cases hcount : (words expression.toList).length = places.length
  · obtain ⟨fields, hfields⟩ := exists_map_places hcount
    have hwords := words_eq_iff.1 hfields
    -- with five fields the first that is not in its grammar is at fault
    rw [parse_of_fields hfields, bind_eq_error_iff, mapM_eq_error_iff]
    simp only [fieldAt_eq_ok_iff, fieldAt_eq_error_iff]
    constructor
    · rintro (⟨before, place, after, parts, hplace, hbefore, fault, hfault, rfl⟩ |
        ⟨lists, hlists, h⟩)
      · exact .field hwords hplace hbefore hfault
      · obtain ⟨parts, rfl, hfield⟩ := exists_parts hlists
        rw [parse_of_lists hfield] at h
        cases h
    · rintro (⟨hfound, hnot⟩ | ⟨hwords', hplace, hbefore, hfault⟩)
      · rw [← words_of_hasWords hfound] at hnot
        exact absurd hcount hnot
      · rename_i fields' parts before after place fault
        -- the words of the text are the fields of either reading
        have hsame : places.map fields = places.map fields' := by
          rw [← words_of_hasWords hwords, ← words_of_hasWords hwords']
        have hfield : ∀ place, fields place = fields' place :=
          fun place => List.map_inj_left.1 hsame place (by cases place <;> decide)
        refine .inl ⟨before, place, after, parts, hplace, ?_, fault, ?_, ?_⟩
        · exact hbefore.imp fun place parts h => hfield place ▸ h
        · exact hfield place ▸ hfault
        · rw [hfield place]
  · rw [parse_of_count hcount]
    constructor
    · intro h
      cases h
      exact .count (words_eq_iff.1 rfl) hcount
    · rintro (⟨hfound, -⟩ | ⟨hwords, -, -, -⟩)
      · rw [words_of_hasWords hfound]
      · rw [words_of_hasWords hwords] at hcount
        exact absurd (List.length_map _) hcount

/-- With the engine of the program the same expressions are accepted. -/
theorem parse_eq_ok_iff : CronTrigger.parse expression zone = .ok c ↔
    ∃ fields parts, Reads expression fields parts ∧ c = triggerOf zone fields parts :=
  parse_eq_ok_iff_of .listed

theorem parse_eq_error_iff : CronTrigger.parse expression zone = .error e ↔ Refused expression e :=
  parse_eq_error_iff_of .listed

/-- The reader of cron expressions accepts the grammar, whichever engine it asks: it makes a trigger
    of an expression just when that reads as five fields, the trigger carries the values that the
    fields stand for however they are read, and any other expression is refused with the number of
    its fields or the first fault of the first field that has one. -/
theorem parse_follows_grammar (engine : CronEngine) (expression : String) (zone : Zone) :
    ((∃ c, CronTrigger.parse expression zone engine.read = .ok c) ↔
      ∃ fields parts, Reads expression fields parts) ∧
    (∀ fields parts, Reads expression fields parts →
      ∃ c, CronTrigger.parse expression zone engine.read = .ok c ∧ c.Carries zone fields parts) ∧
    (∀ e, CronTrigger.parse expression zone engine.read = .error e ↔ Refused expression e) := by
  refine ⟨?_, ?_, fun e => parse_eq_error_iff_of engine⟩
  · constructor
    · rintro ⟨c, hparse⟩
      obtain ⟨fields, parts, hreads, -⟩ := (parse_eq_ok_iff_of engine).1 hparse
      exact ⟨fields, parts, hreads⟩
    · rintro ⟨fields, parts, hreads⟩
      exact ⟨_, (parse_eq_ok_iff_of engine).2 ⟨fields, parts, hreads, rfl⟩⟩
  · intro fields parts hreads
    exact ⟨_, (parse_eq_ok_iff_of engine).2 ⟨fields, parts, hreads, rfl⟩,
      carries_triggerOf hreads.field⟩

/-- The engine makes no difference. -/
theorem parse_eq_parse (engine : CronEngine) (expression : String) (zone : Zone) :
    CronTrigger.parse expression zone engine.read = CronTrigger.parse expression zone := by
  cases hlisted : CronTrigger.parse expression zone with
  | ok c => exact (parse_eq_ok_iff_of engine).2 (parse_eq_ok_iff.1 hlisted)
  | error e => exact (parse_eq_error_iff_of engine).2 (parse_eq_error_iff.1 hlisted)

end Reading

end JobFleet.Schedule
