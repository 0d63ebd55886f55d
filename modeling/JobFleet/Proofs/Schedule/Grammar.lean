/-
  JobFleet.Proofs.Schedule.Grammar: the grammar of a cron field.

  A field is described twice over, without saying how it is read: by the derivations of the fields
  that are accepted, with the parts they stand for, and by the faults of those that are refused.  A
  derivation says where a text can be taken apart; a fault also says which separators come first and
  what was found to be right before it, since the first fault counts.

  Main results:
    * `parseField_eq_ok_iff` — the reader accepts the fields of the grammar, with their parts.
    * `parseField_eq_error_iff` — it reports the first fault of any other field.
    * `IsField.mem_fieldValues` — the values of a field are those that its parts run through.
    * `IsField.exists_means`, `IsField.bounds` — there is one, and all are in bounds.
-/
import Mathlib.Data.List.Forall2
import Mathlib.Tactic.MkIffOfInductiveProp
import JobFleet.Proofs.Text.Tokens
import JobFleet.Schedule.Field

namespace JobFleet.Schedule

open JobFleet.Text

/-! ## Fields that are accepted -/

/-- The token is one of the names of the place, in any case of letters. -/
def IsName (place : Place) (token : List Char) (i : Nat) : Prop :=
  ∃ name, place.names[i]? = some name ∧ sameLetters name.toList token = true

/-- The token stands for the value: it is a number in bounds, or a name. -/
inductive Denotes (place : Place) (token : List Char) : Nat → Prop
  | number {v : Nat} (hnumeral : IsNumeral token v) (hlow : place.low ≤ v)
    (hhigh : v ≤ place.high) : Denotes place token v
  | name {i : Nat} (hname : IsName place token i) : Denotes place token (i + place.low)

/-- The token is a number that can be a step. -/
def IsStep (token : List Char) (step : Nat) : Prop :=
  IsNumeral token step ∧ step < numberBound ∧ 0 < step

/-- The text before a slash, or without one, and its first and last value. -/
@[mk_iff]
inductive IsRange (place : Place) (stepped : Bool) : List Char → Nat → Nat → Prop
  | star : IsRange place stepped ['*'] place.low place.high
  | value {token : List Char} {v : Nat} (hvalue : Denotes place token v) :
      IsRange place stepped token v (if stepped then place.high else v)
  | range {lower upper : List Char} {first last : Nat} (hlower : Denotes place lower first)
      (hupper : Denotes place upper last) (hle : first ≤ last) :
      IsRange place stepped (lower ++ '-' :: upper) first last

/-- One part of a field and what it stands for. -/
@[mk_iff]
inductive IsPart (place : Place) : List Char → Part → Prop
  | plain {range : List Char} {first last : Nat} (hrange : IsRange place false range first last) :
      IsPart place range ⟨first, last, 1⟩
  | stepped {range token : List Char} {first last step : Nat}
    (hrange : IsRange place true range first last)
      (hstep : IsStep token step) : IsPart place (range ++ '/' :: token) ⟨first, last, step⟩

/-- A field is a list of parts with commas between them. -/
def IsField (place : Place) (raw : List Char) (parts : List Part) : Prop :=
  ∃ texts, texts ≠ [] ∧ raw = [','].intercalate texts ∧ List.Forall₂ (IsPart place) texts parts

/-- A value that one of the parts runs through. -/
def Means (parts : List Part) (v : Nat) :
    Prop := ∃ p ∈ parts, ∃ k, v = p.first + k * p.step ∧ v ≤ p.last

/-! ## Fields that are refused -/

/-- What is wrong with a value. -/
inductive ValueFault (place : Place) (token : List Char) : FieldFault → Prop
  | notANumber (hname : ∀ i, ¬ IsName place token i)
    (hnumeral : ∀ n, IsNumeral token n → numberBound ≤ n) :
      ValueFault place token (.notANumber (String.ofList token))
  | outside {n : Nat} (hnumeral : IsNumeral token n) (hbound : n < numberBound)
      (houtside : n < place.low ∨ place.high < n) :
      ValueFault place token (.outside n place.low place.high)

/-- What is wrong with a step. -/
inductive StepFault (token : List Char) : FieldFault → Prop
  | badStep (hnumeral : ∀ n, IsNumeral token n → numberBound ≤ n) :
    StepFault token (.badStep (String.ofList token))
  | zeroStep (hnumeral : IsNumeral token 0) : StepFault token .zeroStep

/-- What is wrong with the text before a slash: the lower end is read before the upper one. -/
@[mk_iff]
inductive RangeFault (place : Place) : List Char → FieldFault → Prop
  | value {token : List Char} {fault : FieldFault} (hstar : token ≠ ['*']) (hdash : '-' ∉ token)
      (hfault : ValueFault place token fault) : RangeFault place token fault
  | lower {lower upper : List Char} {fault : FieldFault} (hdash : '-' ∉ lower)
      (hfault : ValueFault place lower fault) : RangeFault place (lower ++ '-' :: upper) fault
  | upper {lower upper : List Char} {first : Nat} {fault : FieldFault}
    (hlower : Denotes place lower first)
      (hfault : ValueFault place upper fault) : RangeFault place (lower ++ '-' :: upper) fault
  | reversed {lower upper : List Char} {first last : Nat} (hlower : Denotes place lower first)
      (hupper : Denotes place upper last) (hlt : last < first) :
      RangeFault place (lower ++ '-' :: upper) (.reversed first last)

/-- What is wrong with a part: the step is read before the rest. -/
@[mk_iff]
inductive PartFault (place : Place) : List Char → FieldFault → Prop
  | empty : PartFault place [] .emptyElement
  | step {range token : List Char} {fault : FieldFault} (hslash : '/' ∉ range)
    (hfault : StepFault token fault) :
      PartFault place (range ++ '/' :: token) fault
  | stepped {range token : List Char} {step : Nat} {fault : FieldFault} (hslash : '/' ∉ range)
      (hstep : IsStep token step) (hfault : RangeFault place range fault) :
      PartFault place (range ++ '/' :: token) fault
  | plain {range : List Char} {fault : FieldFault} (hne : range ≠ []) (hslash : '/' ∉ range)
      (hfault : RangeFault place range fault) : PartFault place range fault

/-- What is wrong with a field: the fault of its first part that has one. -/
def FieldHasFault (place : Place) (raw : List Char) (fault : FieldFault) : Prop :=
  ∃ before text after parts, raw = [','].intercalate (before ++ text :: after) ∧
    (∀ t ∈ before ++ text :: after, ',' ∉ t) ∧ List.Forall₂ (IsPart place) before parts ∧
    PartFault place text fault

/-! ## Readers that can fail -/

section Readers

variable {ε α β : Type} {x : Except ε α} {f : α → Except ε β} {xs : List α} {b : β} {e : ε}

/-- A step after another succeeds if both do. -/
theorem bind_eq_ok_iff : x >>= f = .ok b ↔ ∃ a, x = .ok a ∧ f a = .ok b := by
  cases x with
  | error e => simp [bind, Except.bind]
  | ok a => simp [bind, Except.bind]

/-- It fails with the first error. -/
theorem bind_eq_error_iff : x >>= f = .error e ↔ x = .error e ∨ ∃ a, x = .ok a ∧
    f a = .error e := by
  cases x with
  | error e => simp [bind, Except.bind]
  | ok a => simp [bind, Except.bind]

/-- A row of steps succeeds if each does. -/
theorem mapM_eq_ok_iff {ys : List β} : xs.mapM f = .ok ys ↔
    List.Forall₂ (fun x y => f x = .ok y) xs ys := by
  induction xs generalizing ys with
  | nil => simp [pure, Except.pure, eq_comm]
  | cons x xs ih =>
    simp only [List.mapM_cons, bind_eq_ok_iff, ih, List.forall₂_cons_left_iff]
    constructor
    · rintro ⟨y, hy, ys', hys, h⟩
      cases h
      exact ⟨y, ys', hy, hys, rfl⟩
    · rintro ⟨y, ys', hy, hys, rfl⟩
      exact ⟨y, hy, ys', hys, rfl⟩

/-- The first element that fails decides. -/
theorem mapM_eq_error_iff : xs.mapM f = .error e ↔ ∃ before x after ys, xs = before ++ x :: after ∧
    List.Forall₂ (fun x y => f x = .ok y) before ys ∧ f x = .error e := by
  induction xs with
  | nil => simp [pure, Except.pure]
  | cons x xs ih =>
    simp only [List.mapM_cons, bind_eq_error_iff, ih]
    constructor
    · rintro (hx | ⟨y, hy, ⟨before, z, after, ys, rfl, hbefore, hz⟩ | ⟨ys, -, h⟩⟩)
      · exact ⟨[], x, xs, [], rfl, .nil, hx⟩
      · exact ⟨x :: before, z, after, y :: ys, rfl, .cons hy hbefore, hz⟩
      · cases h
    · rintro ⟨before, z, after, ys, hxs, hbefore, hz⟩
      cases hbefore with
      | nil =>
        cases hxs
        exact .inl hz
      | cons hy hrest =>
        cases hxs
        exact .inr ⟨_, hy, .inl ⟨_, z, after, _, rfl, hrest, hz⟩⟩

end Readers

/-! ## Values -/

section Values

variable {place : Place} {token : List Char} {fault : FieldFault} {v n i : Nat}

/-- The letters of the names, and no sign or digit. -/
theorem letter_of_mem_names : ∀ name ∈ place.names, ∀ c ∈ name.toList, 'A' ≤ c ∧ c ≤ 'Z' := by
  have hall : (place.names.all fun name => name.toList.all fun c => decide ('A' ≤ c ∧ c ≤ 'Z')) =
      true := by
    cases place <;> decide
  intro name hname c hc
  exact of_decide_eq_true (List.all_eq_true.1 (List.all_eq_true.1 hall name hname) c hc)

/-- No two names differ only in the case of letters. -/
theorem nodup_names : (place.names.map (fun name => name.toList.map Char.toLower)).Nodup := by
  cases place <;> decide

/-- The names lie within the bounds of the place. -/
theorem length_names_le : place.names.length ≤ place.high + 1 - place.low := by
  cases place <;> decide

theorem lt_of_isName (h : IsName place token i) : i < place.names.length := by
  obtain ⟨name, hname, -⟩ := h
  exact (List.getElem?_eq_some_iff.1 hname).1

/-- A token is one name at most. -/
theorem isName_unique {j : Nat} (hi : IsName place token i)
    (hj : IsName place token j) : i = j := by
  obtain ⟨name, hname, hletters⟩ := hi
  obtain ⟨other, hother, hletters'⟩ := hj
  have hsame : name.toList.map Char.toLower = other.toList.map Char.toLower := by
    rw [eq_of_beq hletters, eq_of_beq hletters']
  have hlookup : ∀ {k : Nat} {s : String}, place.names[k]? = some s →
      (place.names.map (fun name => name.toList.map Char.toLower))[k]? =
        some (s.toList.map Char.toLower) := by
    intro k s hk
    rw [List.getElem?_map, hk]
    rfl
  have hi := hlookup hname
  have hj := hlookup hother
  rw [← hsame] at hj
  exact (List.getElem?_inj (List.getElem?_eq_some_iff.1 hi).1 nodup_names).1 (hi.trans hj.symm)

/-- The reader of names finds the name that a token is. -/
theorem named?_eq_some_iff : named? place token = some v ↔
    ∃ i, IsName place token i ∧ v = i + place.low := by
  unfold named?
  rw [Option.map_eq_some_iff]
  constructor
  · rintro ⟨i, hi, rfl⟩
    obtain ⟨hlt, hletters, -⟩ := List.findIdx?_eq_some_iff_getElem.1 hi
    exact ⟨i, ⟨_, List.getElem?_eq_getElem hlt, hletters⟩, rfl⟩
  · rintro ⟨i, hname, rfl⟩
    obtain ⟨name, hlookup, hletters⟩ := hname
    obtain ⟨hlt, hget⟩ := List.getElem?_eq_some_iff.1 hlookup
    refine ⟨i, List.findIdx?_eq_some_iff_getElem.2 ⟨hlt, by rw [hget]; exact hletters, ?_⟩, rfl⟩
    intro j hj hother
    have hsame : i = j := isName_unique ⟨name, hlookup, hletters⟩ ⟨_,
      List.getElem?_eq_getElem (by omega), hother⟩
    omega

/-- A token is no name if it is none of them. -/
theorem named?_eq_none_iff : named? place token = none ↔ ∀ i, ¬ IsName place token i := by
  rw [Option.eq_none_iff_forall_ne_some]
  constructor
  · exact fun h i hname => h _ (named?_eq_some_iff.2 ⟨i, hname, rfl⟩)
  · rintro h v hv
    obtain ⟨i, hname, -⟩ := named?_eq_some_iff.1 hv
    exact h i hname

theorem toLower_of_le {c : Char} (h : c ≤ '9') : c.toLower = c := by
  have hcases : ∀ n : Fin 58, (Char.ofNat n).toLower = Char.ofNat n := by decide
  have hhigh : c.toNat ≤ 57 := h
  have hc := hcases ⟨c.toNat, by omega⟩
  rwa [Char.ofNat_toNat] at hc

theorem le_toLower {c : Char} (h : 'A' ≤ c ∧ c ≤ 'Z') : ¬ c.toLower ≤ '9' := by
  have hcases : ∀ n : Fin 26, ¬ (Char.ofNat (65 + n)).toLower ≤ '9' := by decide
  have hlow : 65 ≤ c.toNat := h.1
  have hhigh : c.toNat ≤ 90 := h.2
  have hc := hcases ⟨c.toNat - 65, by omega⟩
  simp only at hc
  rwa [Nat.add_sub_cancel' hlow, Char.ofNat_toNat] at hc

/-- A numeral is no name. -/
theorem not_isName_of_isNumeral (h : IsNumeral token n) : ¬ IsName place token i := by
  rintro ⟨name, hname, hletters⟩
  obtain ⟨hne, hdigits⟩ := h.letters
  obtain ⟨c, rest, rfl⟩ := List.exists_cons_of_ne_nil hne
  have hsmall : c ≤ '9' := by
    rcases hdigits c List.mem_cons_self with rfl | hc
    · decide
    · exact hc.2
  -- the first letters differ: a letter of a name comes after the digits
  have hmem : c.toLower ∈ name.toList.map Char.toLower := by
    rw [eq_of_beq hletters]
    exact List.mem_map_of_mem List.mem_cons_self
  obtain ⟨d, hd, hsame⟩ := List.mem_map.1 hmem
  rw [toLower_of_le hsmall] at hsame
  exact le_toLower (letter_of_mem_names name (List.mem_of_getElem? hname) d hd) (hsame ▸ hsmall)

/-- All values of a place can be held. -/
theorem high_lt_numberBound : place.high < numberBound := by
  cases place <;> decide

/-- A token is read as the value that it stands for. -/
theorem parseValue_eq_ok_iff : parseValue place token = .ok v ↔ Denotes place token v := by
  unfold parseValue
  cases hnamed : named? place token with
  | some w =>
    -- a name is never a numeral, and stands for one value
    obtain ⟨i, hname, rfl⟩ := named?_eq_some_iff.1 hnamed
    constructor
    · intro h
      cases h
      exact .name hname
    · rintro (⟨hnumeral, -, -⟩ | hname')
      · exact absurd hname (not_isName_of_isNumeral hnumeral)
      · rw [isName_unique hname hname']
  | none =>
    have hnone := named?_eq_none_iff.1 hnamed
    -- a numeral in bounds is small enough to be read
    cases hread : readUnsigned? numberBound token with
    | none =>
      constructor
      · intro h
        cases h
      · rintro (⟨hnumeral, -, hhigh⟩ | hname)
        · have hsome := readUnsigned?_eq_some_iff.2 ⟨hnumeral,
            Nat.lt_of_le_of_lt hhigh high_lt_numberBound⟩
          rw [hread] at hsome
          cases hsome
        · exact absurd hname (hnone _)
    | some w =>
      obtain ⟨hw, -⟩ := readUnsigned?_eq_some_iff.1 hread
      simp only
      constructor
      · intro h
        split at h
        · cases h
        · cases h
          exact .number hw (by omega) (by omega)
      · rintro (⟨hnumeral, hlow, hhigh⟩ | hname)
        · have hsome := readUnsigned?_eq_some_iff.2 ⟨hnumeral,
            Nat.lt_of_le_of_lt hhigh high_lt_numberBound⟩
          rw [hread] at hsome
          cases hsome
          rw [if_neg (by omega)]
        · exact absurd hname (hnone _)

/-- Any other token is refused with what is wrong with it. -/
theorem parseValue_eq_error_iff : parseValue place token = .error fault ↔
    ValueFault place token fault := by
  unfold parseValue
  cases hnamed : named? place token with
  | some w =>
    obtain ⟨i, hname, rfl⟩ := named?_eq_some_iff.1 hnamed
    constructor
    · intro h
      cases h
    · rintro (⟨hnot, -⟩ | ⟨hnumeral, -, -⟩)
      · exact absurd hname (hnot i)
      · exact absurd hname (not_isName_of_isNumeral hnumeral)
  | none =>
    cases hread : readUnsigned? numberBound token with
    | none =>
      -- a numeral that is not read is too large
      have hnone : ∀ n, IsNumeral token n → numberBound ≤ n := by
        intro n hnumeral
        by_contra hlt
        have hsome := readUnsigned?_eq_some_iff.2 ⟨hnumeral, Nat.not_le.1 hlt⟩
        rw [hread] at hsome
        cases hsome
      constructor
      · intro h
        cases h
        exact .notANumber (named?_eq_none_iff.1 hnamed) hnone
      · rintro (_ | ⟨hnumeral, hbound, -⟩)
        · rfl
        · exact absurd hbound (Nat.not_lt.2 (hnone _ hnumeral))
    | some w =>
      obtain ⟨hw, hbound⟩ := readUnsigned?_eq_some_iff.1 hread
      simp only
      constructor
      · intro h
        split at h
        · rename_i houtside
          cases h
          exact .outside hw hbound houtside
        · cases h
      · rintro (⟨-, hnot⟩ | ⟨hnumeral, hbound', houtside⟩)
        · exact absurd hbound (Nat.not_lt.2 (hnot w hw))
        · have hsome := readUnsigned?_eq_some_iff.2 ⟨hnumeral, hbound'⟩
          rw [hread] at hsome
          cases hsome
          rw [if_pos houtside]

end Values

/-! ## Parts -/

section Parts

variable {place : Place} {token text : List Char} {stepped : Bool}
    {fault : FieldFault} {part : Part}
variable {first last step : Nat}

/-- A step is read as its number. -/
theorem parseStep_eq_ok_iff : parseStep token = .ok step ↔ IsStep token step := by
  unfold parseStep IsStep
  rw [← and_assoc, ← readUnsigned?_eq_some_iff]
  split
  · rename_i hread
    simp [hread]
  · rename_i hread
    rw [hread]
    constructor
    · intro h
      cases h
    · rintro ⟨h, hpos⟩
      cases h
      exact absurd hpos (Nat.lt_irrefl 0)
  · rename_i n hzero hread
    rw [hread]
    constructor
    · intro h
      cases h
      exact ⟨rfl, Nat.pos_of_ne_zero hzero⟩
    · rintro ⟨h, -⟩
      cases h
      rfl

/-- Any other text in its place is refused with what is wrong with it. -/
theorem parseStep_eq_error_iff : parseStep token = .error fault ↔ StepFault token fault := by
  have hnumeral : ∀ n, IsNumeral token n → n < numberBound →
      readUnsigned? numberBound token = some n :=
    fun n h hbound => readUnsigned?_eq_some_iff.2 ⟨h, hbound⟩
  unfold parseStep
  split
  · rename_i hread
    constructor
    · intro h
      cases h
      refine .badStep (fun n h => ?_)
      -- a number that can be held would have been read
      by_contra hlt
      rw [hread] at hnumeral
      cases hnumeral n h (Nat.not_le.1 hlt)
    · rintro (_ | hzero)
      · rfl
      · rw [hread] at hnumeral
        cases hnumeral 0 hzero (by decide)
  · rename_i hread
    obtain ⟨hzero, hbound⟩ := readUnsigned?_eq_some_iff.1 hread
    constructor
    · intro h
      cases h
      exact .zeroStep hzero
    · rintro (hnot | _)
      · exact absurd hbound (Nat.not_lt.2 (hnot 0 hzero))
      · rfl
  · rename_i n hne hread
    obtain ⟨hn, hbound⟩ := readUnsigned?_eq_some_iff.1 hread
    constructor
    · intro h
      cases h
    · rintro (hnot | hzero)
      · exact absurd hbound (Nat.not_lt.2 (hnot n hn))
      · have hsome := hnumeral 0 hzero (by decide)
        rw [hread] at hsome
        cases hsome
        exact absurd rfl hne

/-- What stands for a value is written with letters, digits and a `+`. -/
theorem Denotes.letters {v : Nat} (h : Denotes place token v) :
    token ≠ [] ∧ ∀ c ∈ token, c = '+' ∨ ('0' ≤ c ∧ c ≤ '9') ∨ ¬ c.toLower ≤ '9' := by
  cases h with
  | number hnumeral =>
    obtain ⟨hne, hletters⟩ := hnumeral.letters
    exact ⟨hne, fun c hc => (hletters c hc).imp_right .inl⟩
  | name hname =>
    obtain ⟨name, hlookup, hletters⟩ := hname
    have hsame := eq_of_beq hletters
    have hmem := List.mem_of_getElem? hlookup
    constructor
    · rintro rfl
      have hempty : name.toList = [] := by simpa using hsame
      have hnonempty : ∀ name ∈ place.names, name.toList ≠ [] := by cases place <;> decide
      exact hnonempty name hmem hempty
    · intro c hc
      have hlower : c.toLower ∈ name.toList.map Char.toLower := by
        rw [hsame]
        exact List.mem_map_of_mem hc
      obtain ⟨d, hd, heq⟩ := List.mem_map.1 hlower
      rw [← heq]
      exact .inr (.inr (le_toLower (letter_of_mem_names name hmem d hd)))

/-- So it holds none of the separators of a field, and is not a star. -/
theorem Denotes.no_separator {v : Nat} {c : Char} (h : Denotes place token v)
    (hc : c ∈ ['-', '/', ',', '*']) : c ∉ token := by
  intro hmem
  have hall : (['-', '/', ',', '*'].all fun c =>
      decide (¬ (c = '+' ∨ ('0' ≤ c ∧ c ≤ '9') ∨ ¬ c.toLower ≤ '9'))) = true := by
    decide
  exact of_decide_eq_true (List.all_eq_true.1 hall c hc) (h.letters.2 c hmem)

/-- A star stands for no single value. -/
theorem Denotes.ne_star {v : Nat} (h : Denotes place token v) : token ≠ ['*'] := by
  rintro rfl
  exact h.no_separator (by decide) (List.mem_singleton.2 rfl)

/-- A range holds no slash and no comma. -/
theorem IsRange.no_separator {c : Char} (h : IsRange place stepped text first last)
    (hc : c ∈ ['/', ',']) : c ∉ text := by
  have hsep : c ∈ ['-', '/', ',', '*'] := by
    rcases List.mem_cons.1 hc with rfl | hc
    · decide
    · rw [List.mem_singleton.1 hc]
      decide
  have hne : ∀ d ∈ ['/', ','], d ≠ '*' ∧ d ≠ '-' := by simp
  cases h with
  | star => simpa using (hne c hc).1
  | value hvalue => exact hvalue.no_separator hsep
  | range hlower hupper =>
    simp only [List.mem_append, List.mem_cons, not_or]
    exact ⟨hlower.no_separator hsep, (hne c hc).2, hupper.no_separator hsep⟩

/-- A range is not empty. -/
theorem IsRange.ne_nil (h : IsRange place stepped text first last) : text ≠ [] := by
  cases h with
  | star => exact List.cons_ne_nil _ _
  | value hvalue => exact hvalue.letters.1
  | range => simp

/-- A part holds no comma. -/
theorem IsPart.no_comma (h : IsPart place text part) : ',' ∉ text := by
  cases h with
  | plain hrange => exact hrange.no_separator (by decide)
  | stepped hrange hstep =>
    simp only [List.mem_append, List.mem_cons, not_or]
    refine ⟨hrange.no_separator (by decide), by decide, fun hmem => ?_⟩
    rcases hstep.1.letters.2 ',' hmem with hcomma | hcomma
    · exact absurd hcomma (by decide)
    · exact absurd hcomma (by decide)

theorem star_ne_range (lower upper : List Char) : ['*'] ≠ lower ++ '-' :: upper := by
  cases lower <;> simp

/-- A range is read as its ends. -/
theorem parseRange_eq_ok_iff :
    parseRange place stepped text = .ok (first, last) ↔ IsRange place stepped text first last := by
  unfold parseRange
  rw [isRange_iff]
  split
  · -- a star is neither a value nor a range
    rename_i hstar
    subst hstar
    constructor
    · intro h
      cases h
      exact .inl ⟨rfl, rfl, rfl⟩
    · rintro (⟨-, rfl, rfl⟩ | ⟨hvalue, -⟩ | ⟨lower, upper, -, -, -, hrange⟩)
      · rfl
      · exact absurd rfl hvalue.ne_star
      · exact absurd hrange (star_ne_range lower upper)
  · rename_i hstar
    cases hcut : cutFirst '-' text with
    | some cut =>
      obtain ⟨lower, upper⟩ := cut
      obtain ⟨rfl, hdash⟩ := cutFirst_eq_some_iff.1 hcut
      simp only [bind_eq_ok_iff, parseValue_eq_ok_iff]
      -- values hold no dash, so every way to read the text cuts it at the first one
      constructor
      · rintro ⟨v, hlower, w, hupper, h⟩
        split at h
        · cases h
        · rename_i hle
          cases h
          exact .inr (.inr ⟨lower, upper, hlower, hupper, Nat.not_lt.1 hle, rfl⟩)
      · rintro (⟨hstar', -, -⟩ | ⟨hvalue, -⟩ | ⟨lower', upper', hlower, hupper, hle, hrange⟩)
        · exact absurd hstar' hstar
        · exact absurd List.mem_append_cons_self (hvalue.no_separator (by decide))
        · obtain ⟨rfl, rfl⟩ := cut_unique hdash (hlower.no_separator (by decide)) hrange
          exact ⟨first, hlower, last, hupper, if_neg (Nat.not_lt.2 hle)⟩
    | none =>
      have hdash := cutFirst_eq_none_iff.1 hcut
      simp only [bind_eq_ok_iff, parseValue_eq_ok_iff]
      constructor
      · rintro ⟨v, hvalue, h⟩
        cases h
        exact .inr (.inl ⟨hvalue, rfl⟩)
      · rintro (⟨hstar', -, -⟩ | ⟨hvalue, rfl⟩ | ⟨lower, upper, -, -, -, rfl⟩)
        · exact absurd hstar' hstar
        · exact ⟨first, hvalue, rfl⟩
        · exact absurd List.mem_append_cons_self hdash

/-- Any other range is refused with its first fault. -/
theorem parseRange_eq_error_iff :
    parseRange place stepped text = .error fault ↔ RangeFault place text fault := by
  unfold parseRange
  rw [rangeFault_iff]
  split
  · rename_i hstar
    subst hstar
    constructor
    · intro h
      cases h
    · rintro (⟨hstar, -, -⟩ | ⟨lower, upper, -, -, hrange⟩ | ⟨lower, upper, _, -, -, hrange⟩ |
        ⟨lower, upper, _, _, -, -, -, hrange, -⟩)
      · exact absurd rfl hstar
      · exact absurd hrange (star_ne_range lower upper)
      · exact absurd hrange (star_ne_range lower upper)
      · exact absurd hrange (star_ne_range lower upper)
  · rename_i hstar
    cases hcut : cutFirst '-' text with
    | some cut =>
      obtain ⟨lower, upper⟩ := cut
      obtain ⟨rfl, hdash⟩ := cutFirst_eq_some_iff.1 hcut
      simp only [bind_eq_error_iff, parseValue_eq_ok_iff, parseValue_eq_error_iff]
      -- the lower value is looked at first, then the upper one, and then their order
      constructor
      · rintro (hlower | ⟨v, hlower, hupper | ⟨w, hupper, h⟩⟩)
        · exact .inr (.inl ⟨lower, upper, hdash, hlower, rfl⟩)
        · exact .inr (.inr (.inl ⟨lower, upper, v, hlower, hupper, rfl⟩))
        · split at h
          · rename_i hlt
            cases h
            exact .inr (.inr (.inr ⟨lower, upper, v, w, hlower, hupper, hlt, rfl, rfl⟩))
          · cases h
      · rintro (⟨-, hnone, -⟩ | ⟨lower', upper', hdash', hlower, hrange⟩ | ⟨lower', upper', v,
          hlower, hupper, hrange⟩ |
          ⟨lower', upper', v, w, hlower, hupper, hlt, hrange, rfl⟩)
        · exact absurd List.mem_append_cons_self hnone
        · obtain ⟨rfl, rfl⟩ := cut_unique hdash hdash' hrange
          exact .inl hlower
        · obtain ⟨rfl, rfl⟩ := cut_unique hdash (hlower.no_separator (by decide)) hrange
          exact .inr ⟨v, hlower, .inl hupper⟩
        · obtain ⟨rfl, rfl⟩ := cut_unique hdash (hlower.no_separator (by decide)) hrange
          exact .inr ⟨v, hlower, .inr ⟨w, hupper, if_pos hlt⟩⟩
    | none =>
      have hdash := cutFirst_eq_none_iff.1 hcut
      simp only [bind_eq_error_iff, parseValue_eq_ok_iff, parseValue_eq_error_iff]
      constructor
      · rintro (hvalue | ⟨v, -, h⟩)
        · exact .inl ⟨hstar, hdash, hvalue⟩
        · cases h
      · rintro (⟨-, -, hvalue⟩ | ⟨lower, upper, -, -, rfl⟩ | ⟨lower, upper, _, -, -, rfl⟩ |
          ⟨lower, upper, _, _, -, -, -, rfl, -⟩)
        · exact .inl hvalue
        · exact absurd List.mem_append_cons_self hdash
        · exact absurd List.mem_append_cons_self hdash
        · exact absurd List.mem_append_cons_self hdash

/-- A part is read as its range and its step. -/
theorem parsePart_eq_ok_iff : parsePart place text = .ok part ↔ IsPart place text part := by
  unfold parsePart
  rw [isPart_iff]
  split
  · rename_i hnil
    subst hnil
    constructor
    · intro h
      cases h
    · rintro (⟨_, _, hrange, -⟩ | ⟨range, token, _, _, _, -, -, hcut, -⟩)
      · exact absurd rfl hrange.ne_nil
      · cases range <;> cases hcut
  · cases hcut : cutFirst '/' text with
    | some cut =>
      obtain ⟨range, token⟩ := cut
      obtain ⟨rfl, hslash⟩ := cutFirst_eq_some_iff.1 hcut
      simp only [bind_eq_ok_iff, Prod.exists, parseStep_eq_ok_iff, parseRange_eq_ok_iff]
      -- ranges hold no slash, so the step begins after the first one
      constructor
      · rintro ⟨step, hstep, first, last, hrange, h⟩
        cases h
        exact .inr ⟨range, token, first, last, step, hrange, hstep, rfl, rfl⟩
      · rintro (⟨_, _, hrange, -⟩ | ⟨range', token', first, last, step, hrange, hstep, hcut', rfl⟩)
        · exact absurd List.mem_append_cons_self (hrange.no_separator (by decide))
        · obtain ⟨rfl, rfl⟩ := cut_unique hslash (hrange.no_separator (by decide)) hcut'
          exact ⟨step, hstep, first, last, hrange, rfl⟩
    | none =>
      have hslash := cutFirst_eq_none_iff.1 hcut
      simp only [bind_eq_ok_iff, Prod.exists, parseRange_eq_ok_iff]
      constructor
      · rintro ⟨first, last, hrange, h⟩
        cases h
        exact .inl ⟨first, last, hrange, rfl⟩
      · rintro (⟨first, last, hrange, rfl⟩ | ⟨range, token, _, _, _, -, -, rfl, -⟩)
        · exact ⟨first, last, hrange, rfl⟩
        · exact absurd List.mem_append_cons_self hslash

/-- Any other part is refused with its first fault. -/
theorem parsePart_eq_error_iff : parsePart place text = .error fault ↔
    PartFault place text fault := by
  unfold parsePart
  rw [partFault_iff]
  split
  · rename_i hnil
    subst hnil
    constructor
    · intro h
      cases h
      exact .inl ⟨rfl, rfl⟩
    · rintro (⟨-, rfl⟩ | ⟨range, token, -, -, hcut⟩ | ⟨range, token, _, -, -, -,
        hcut⟩ | ⟨hne, -, -⟩)
      · rfl
      · cases range <;> cases hcut
      · cases range <;> cases hcut
      · exact absurd rfl hne
  · rename_i hne
    cases hcut : cutFirst '/' text with
    | some cut =>
      obtain ⟨range, token⟩ := cut
      obtain ⟨rfl, hslash⟩ := cutFirst_eq_some_iff.1 hcut
      simp only [bind_eq_error_iff, parseStep_eq_ok_iff, parseStep_eq_error_iff,
        parseRange_eq_error_iff]
      -- the step is looked at before the range
      constructor
      · rintro (hstep | ⟨step, hstep, hrange | ⟨_, -, h⟩⟩)
        · exact .inr (.inl ⟨range, token, hslash, hstep, rfl⟩)
        · exact .inr (.inr (.inl ⟨range, token, step, hslash, hstep, hrange, rfl⟩))
        · cases h
      · rintro (⟨hnil, -⟩ | ⟨range', token', hslash', hstep, hcut'⟩ | ⟨range', token', step,
          hslash', hstep, hrange, hcut'⟩ |
          ⟨-, hnone, -⟩)
        · exact absurd hnil hne
        · obtain ⟨rfl, rfl⟩ := cut_unique hslash hslash' hcut'
          exact .inl hstep
        · obtain ⟨rfl, rfl⟩ := cut_unique hslash hslash' hcut'
          exact .inr ⟨step, hstep, .inl hrange⟩
        · exact absurd List.mem_append_cons_self hnone
    | none =>
      have hslash := cutFirst_eq_none_iff.1 hcut
      simp only [bind_eq_error_iff, parseRange_eq_error_iff]
      constructor
      · rintro (hrange | ⟨_, -, h⟩)
        · exact .inr (.inr (.inr ⟨hne, hslash, hrange⟩))
        · cases h
      · rintro (⟨hnil, -⟩ | ⟨range, token, -, -, rfl⟩ | ⟨range, token, _, -, -, -,
          rfl⟩ | ⟨-, -, hrange⟩)
        · exact absurd hnil hne
        · exact absurd List.mem_append_cons_self hslash
        · exact absurd List.mem_append_cons_self hslash
        · exact .inl hrange

end Parts

/-! ## Fields -/

section Fields

variable {place : Place} {raw : List Char} {parts : List Part} {fault : FieldFault}

/-- The reader of fields accepts those of the grammar, with their parts. -/
theorem parseField_eq_ok_iff : parseField place raw = .ok parts ↔ IsField place raw parts := by
  unfold parseField IsField
  rw [mapM_eq_ok_iff]
  simp only [parsePart_eq_ok_iff]
  constructor
  · intro h
    obtain ⟨hne, -, hraw⟩ := pieces_eq_iff.1 (Eq.refl (pieces (· == ',') raw))
    exact ⟨_, hne, hraw, h⟩
  · rintro ⟨texts, hne, hraw, h⟩
    -- parts hold no comma, so the field falls into just these
    have hplain : ∀ t ∈ texts, ',' ∉ t :=
      ((List.forall₂_and_left _ _).1 (h.imp fun _ _ hpart => ⟨hpart.no_comma, hpart⟩)).1
    rwa [pieces_eq_iff.2 ⟨hne, hplain, hraw⟩]

/-- It reports the fault of the first part that has one. -/
theorem parseField_eq_error_iff : parseField place raw = .error fault ↔
    FieldHasFault place raw fault := by
  unfold parseField FieldHasFault
  rw [mapM_eq_error_iff]
  simp only [parsePart_eq_ok_iff, parsePart_eq_error_iff]
  constructor
  · rintro ⟨before, text, after, parts, hpieces, hbefore, hfault⟩
    obtain ⟨-, hplain, hraw⟩ := pieces_eq_iff.1 hpieces
    exact ⟨before, text, after, parts, hraw, hplain, hbefore, hfault⟩
  · rintro ⟨before, text, after, parts, hraw, hplain, hbefore, hfault⟩
    exact ⟨before, text, after, parts, pieces_eq_iff.2 ⟨by simp, hplain, hraw⟩, hbefore, hfault⟩

/-! ## What a field stands for -/

/-- A value that a token stands for is in bounds. -/
theorem Denotes.bounds {token : List Char} {v : Nat} (h : Denotes place token v) :
    place.low ≤ v ∧ v ≤ place.high := by
  cases h with
  | number _ hlow hhigh => exact ⟨hlow, hhigh⟩
  | name hname =>
    have hlt := lt_of_isName hname
    have hlength := @length_names_le place
    omega

/-- A part runs through values in bounds, and at least through its first. -/
structure Part.InBounds (place : Place) (p : Part) : Prop where
  low : place.low ≤ p.first
  le : p.first ≤ p.last
  high : p.last ≤ place.high
  step : 0 < p.step

/-- The ends of a range are in bounds and in order. -/
theorem IsRange.bounds {text : List Char} {stepped : Bool} {first last : Nat}
    (h : IsRange place stepped text first last) :
    place.low ≤ first ∧ first ≤ last ∧ last ≤ place.high := by
  cases h with
  | star => exact ⟨Nat.le_refl _, by cases place <;> decide, Nat.le_refl _⟩
  | value hvalue =>
    obtain ⟨hlow, hhigh⟩ := hvalue.bounds
    cases stepped with
    | true => exact ⟨hlow, hhigh, Nat.le_refl _⟩
    | false => exact ⟨hlow, Nat.le_refl _, hhigh⟩
  | range hlower hupper hle => exact ⟨hlower.bounds.1, hle, hupper.bounds.2⟩

/-- So is what a part runs through. -/
theorem IsPart.inBounds {text : List Char} {part : Part} (h : IsPart place text part) :
    part.InBounds place := by
  cases h with
  | plain hrange =>
    obtain ⟨hlow, hle, hhigh⟩ := hrange.bounds
    exact ⟨hlow, hle, hhigh, Nat.one_pos⟩
  | stepped hrange hstep =>
    obtain ⟨hlow, hle, hhigh⟩ := hrange.bounds
    exact ⟨hlow, hle, hhigh, hstep.2.2⟩

/-- A field has a part, and all its parts are in bounds. -/
theorem IsField.inBounds (h : IsField place raw parts) :
    parts ≠ [] ∧ ∀ p ∈ parts, p.InBounds place := by
  obtain ⟨texts, hne, -, hparts⟩ := h
  constructor
  · rintro rfl
    exact hne (List.forall₂_nil_right_iff.1 hparts)
  · have hflip : List.Forall₂ (fun p t => p.InBounds place ∧ IsPart place t p) parts texts :=
      (hparts.imp fun _ _ hpart => ⟨hpart.inBounds, hpart⟩).flip
    exact ((List.forall₂_and_left _ _).1 hflip).1

/-- A part runs through the values at whole steps from its first to its last. -/
theorem Part.contains_iff {p : Part} {v : Nat} : p.contains v = true ↔
    ∃ k, v = p.first + k * p.step ∧ v ≤ p.last := by
  unfold Part.contains
  rw [decide_eq_true_eq]
  constructor
  · rintro ⟨hfirst, hlast, hmod⟩
    refine ⟨(v - p.first) / p.step, ?_, hlast⟩
    rw [Nat.div_mul_cancel (Nat.dvd_of_mod_eq_zero hmod)]
    omega
  · rintro ⟨k, rfl, hlast⟩
    exact ⟨Nat.le_add_right _ _, hlast, by rw [Nat.add_sub_cancel_left, Nat.mul_mod_left]⟩

/-- The values of a field are those that its parts run through. -/
theorem IsField.mem_fieldValues (h : IsField place raw parts) {v : Nat} :
    v ∈ fieldValues place parts ↔ Means parts v := by
  rw [Schedule.mem_fieldValues]
  simp only [Part.contains_iff]
  refine and_iff_right_of_imp ?_
  rintro ⟨p, hp, -, -, hlast⟩
  exact Nat.le_trans hlast (h.inBounds.2 p hp).high

/-- They are in bounds. -/
theorem IsField.bounds (h : IsField place raw parts) {v : Nat} (hv : Means parts v) :
    place.low ≤ v ∧ v ≤ place.high := by
  obtain ⟨p, hp, k, rfl, hlast⟩ := hv
  have hbounds := h.inBounds.2 p hp
  exact ⟨Nat.le_trans hbounds.low (Nat.le_add_right _ _), Nat.le_trans hlast hbounds.high⟩

/-- There is one at least. -/
theorem IsField.exists_means (h : IsField place raw parts) : ∃ v, Means parts v := by
  obtain ⟨hne, hbounds⟩ := h.inBounds
  obtain ⟨p, rest, rfl⟩ := List.exists_cons_of_ne_nil hne
  exact ⟨p.first, p, List.mem_cons_self, 0, by omega, (hbounds p List.mem_cons_self).le⟩

/-- They are listed in ascending order. -/
theorem fieldValues_ascending (place : Place) (parts : List Part) :
    (fieldValues place parts).Pairwise (· < ·) :=
  List.Pairwise.filter _ List.pairwise_lt_range

end Fields

end JobFleet.Schedule
