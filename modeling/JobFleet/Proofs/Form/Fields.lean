/-
  JobFleet.Proofs.Form.Fields: the fields of records are read back from what is written for them.

  A field is written as a leaf, as `null` when it is optional and missing, or left out.  It is read
  from the slot where its record has it.  Only free JSON could be mistaken: a field that is there
  with the value `null` is read as missing, and members come in the order of their names.

  Main results:
    * `Uuid.read?_write` — an identifier is read back.
    * `optional_ofOption` — an optional field is read back when its value is not written as `null`.
    * `asList_arr` — a list is read back when its items are.
-/
import JobFleet.Form.Ledger
import JobFleet.Proofs.Json.RoundTrip
import JobFleet.Proofs.Time.Timestamp

namespace JobFleet

open JobFleet.Json JobFleet.Text JobFleet.Time

/-! ## Identifiers -/

namespace Uuid

/-- The last hexadecimal digits of a number, most significant first. -/
def hexDigits (count value : Nat) : List Char :=
  (List.range count).map (fun i => hexDigit (value / Nat.pow 16 (count - 1 - i) % 16))

/-- The last digit of a number is its remainder by sixteen. -/
theorem hexDigits_succ (count value : Nat) :
    hexDigits (count + 1) value = hexDigits count (value / 16) ++ [hexDigit (value % 16)] := by
  unfold hexDigits
  rw [List.range_succ, List.map_append, List.map_singleton]
  congr 1
  · refine List.map_congr_left ?_
    intro i hi
    have hlt : i < count := List.mem_range.mp hi
    have hpower : Nat.pow 16 (count + 1 - 1 - i) = 16 * Nat.pow 16 (count - 1 - i) := by
      have hexponent : count + 1 - 1 - i = (count - 1 - i) + 1 := by omega
      rw [hexponent]
      exact Nat.pow_succ'
    rw [hpower, Nat.div_div_eq_div_mul]
  · have hexponent : count + 1 - 1 - count = 0 := by omega
    rw [hexponent]
    simp

/-- A number is read back from its last digits, up to what they can hold. -/
theorem hexNumber?_hexDigits (count value : Nat) :
    hexNumber? (hexDigits count value) = some (value % Nat.pow 16 count) := by
  induction count generalizing value with
  | zero => simp [hexDigits, hexNumber?, Nat.mod_one]
  | succ count ih =>
    -- the last digit is read last and counts once; the others are those of the quotient
    have hrest := ih (value / 16)
    unfold hexNumber? at hrest ⊢
    rw [hexDigits_succ, List.foldlM_append, hrest]
    have hlast := Reader.hexDigit?_hexDigit (Nat.mod_lt value (by decide : 16 > 0))
    simp only [List.foldlM_cons, List.foldlM_nil, Option.bind_eq_bind, Option.bind_some, hlast,
      Option.map_some, Option.pure_def, Option.some.injEq]
    have hpower : Nat.pow 16 (count + 1) = 16 * Nat.pow 16 count := Nat.pow_succ'
    rw [hpower, Nat.mod_mul]
    omega

/-- Between groups stands one hyphen each. -/
theorem length_hyphenate {groups : List Nat} (hne : groups ≠ []) {cs : List Char}
    (hsum : groups.foldr (· + ·) 0 = cs.length) :
    (hyphenate groups cs).length + 1 = cs.length + groups.length := by
  induction groups generalizing cs with
  | nil => exact absurd rfl hne
  | cons n rest ih =>
    cases rest with
    | nil => simp [hyphenate]
    | cons m rest =>
      have hdrop : (m :: rest).foldr (· + ·) 0 = (cs.drop n).length := by
        rw [List.foldr_cons] at hsum
        rw [List.length_drop]
        omega
      have hrest := ih (List.cons_ne_nil m rest) hdrop
      rw [List.foldr_cons] at hsum
      rw [List.length_drop] at hrest
      rw [hyphenate, List.length_append, List.length_take, List.length_cons, List.length_cons]
      · omega
      · simp

/-- Hyphens that were put between groups can be taken out again. -/
theorem unhyphenate?_hyphenate {groups : List Nat} (hne : groups ≠ []) {cs : List Char}
    (hsum : groups.foldr (· + ·) 0 = cs.length) :
    unhyphenate? groups (hyphenate groups cs) = some cs := by
  induction groups generalizing cs with
  | nil => exact absurd rfl hne
  | cons n rest ih =>
    cases rest with
    | nil =>
      rw [List.foldr_cons, List.foldr_nil, Nat.add_zero] at hsum
      simp [hyphenate, unhyphenate?, hsum]
    | cons m rest =>
      rw [List.foldr_cons] at hsum
      have htake : (cs.take n).length = n := by
        rw [List.length_take]
        omega
      have hlength : (m :: rest).foldr (· + ·) 0 = (cs.drop n).length := by
        rw [List.length_drop]
        omega
      have hrest := ih (List.cons_ne_nil m rest) hlength
      have hdrop : (cs.take n ++ '-' :: hyphenate (m :: rest) (cs.drop n)).drop n =
          '-' :: hyphenate (m :: rest) (cs.drop n) := by
        rw [List.drop_append_of_le_length htake.ge,
          List.drop_eq_nil_of_le htake.le, List.nil_append]
      have hback : (cs.take n ++ '-' :: hyphenate (m :: rest) (cs.drop n)).take n = cs.take n := by
        rw [List.take_append_of_le_length htake.ge, List.take_take, Nat.min_self]
      rw [hyphenate, unhyphenate?]
      · simp only [hdrop, hrest, hback, Option.map_some, List.take_append_drop]
      · simp
      · simp

/-- An identifier has thirty-two digits. -/
theorem length_digits (u : Uuid) : u.digits.length = 32 := by
  unfold digits
  rw [List.length_map, List.length_range]

/-- An identifier is read back. -/
theorem read?_write (u : Uuid) : read? u.write = some u := by
  have hsum : groups.foldr (· + ·) 0 = u.digits.length := u.length_digits.symm
  have hlength := length_hyphenate (by decide) hsum
  rw [u.length_digits] at hlength
  have hlength : (hyphenate groups u.digits).length = 36 := Nat.succ.inj hlength
  have hnumber : hexNumber? u.digits = some u.value.toNat := by
    have hfits : u.value.toNat % Nat.pow 16 32 = u.value.toNat := Nat.mod_eq_of_lt u.value.isLt
    rw [← hfits]
    exact hexNumber?_hexDigits 32 u.value.toNat
  unfold read? write
  simp only [String.toList_ofList, hlength, Nat.reduceEqDiff, if_false, if_true,
    unhyphenate?_hyphenate (by decide) hsum, Option.bind_some]
  unfold ofDigits?
  rw [if_pos u.length_digits, hnumber, Option.map_some, BitVec.ofNat_toNat]
  simp

end Uuid

namespace Json

/-! ## Leaves -/

/-- A whole number that fits a signed 64-bit word. -/
def IsInt64 (n : Int) : Prop := -(wordSize 63 : Int) ≤ n ∧ n < (wordSize 63 : Int)

@[simp] theorem asText_str (s : String) : asText (.str s) = some s := rfl

@[simp] theorem asBool_bool (b : Bool) : asBool (.bool b) = some b := rfl

@[simp] theorem asFloat_float (x : Float) : asFloat (.float x) = some x := rfl

/-- Free JSON whose members stand in order is read as it is. -/
theorem asAny_of_ordered {j : Json} (h : j.Ordered) : asAny j = some j :=
  congrArg some (canonical_of_ordered h)

/-- A number below the bound is read back. -/
theorem asNatBelow_ofNat {bound n : Nat} (h : n < bound) :
    asNatBelow bound (.ofNat n) = some n := by
  show (if (0 : Int) ≤ n ∧ (n : Int) < bound then some (n : Int).toNat else none) = _
  rw [if_pos ⟨by omega, by omega⟩, Int.toNat_natCast]

/-- A word of 32 bits is read back. -/
@[simp] theorem asWord32_ofNat (w : UInt32) : asWord32 (.ofNat w.toNat) = some w := by
  unfold asWord32
  rw [asNatBelow_ofNat w.toNat_lt, Option.map_some, UInt32.ofNat_toNat]

@[simp] theorem asWord64_ofNat (w : UInt64) : asWord64 (.ofNat w.toNat) = some w := by
  unfold asWord64
  rw [asNatBelow_ofNat w.toNat_lt, Option.map_some, UInt64.ofNat_toNat]

/-- A whole number that fits a signed word is read back. -/
theorem asInt64_int {n : Int} (h : IsInt64 n) : asInt64 (.int n) = some n := if_pos h

/-- An instant of the calendar is read back. -/
theorem asInstant_ofInstant {t : Instant} (h : t.inCalendar = true) :
    asInstant (ofInstant t) = some t := by
  unfold asInstant ofInstant
  rw [asText_str, Option.bind_some, Timestamp.read?_write h]

/-- A whole number that is read fits a signed word. -/
theorem isInt64_of_asInt64 {j : Json} {n : Int} (h : asInt64 j = some n) : IsInt64 n := by
  unfold asInt64 at h
  split at h
  · split at h
    · next hfits => exact Option.some.inj h ▸ hfits
    · contradiction
  · contradiction

/-- An instant that is read is one of the calendar. -/
theorem inCalendar_of_asInstant {j : Json} {t : Instant} (h : asInstant j = some t) :
    t.inCalendar = true := by
  obtain ⟨s, -, hs⟩ := Option.bind_eq_some_iff.mp h
  exact Timestamp.inCalendar_of_read? hs

/-- A number that fits a word is well formed. -/
theorem wellFormed_ofNat {n : Nat} (h : n < wordSize 64) : (Json.ofNat n).WellFormed := by
  show -(wordSize 63 : Int) ≤ (n : Int) ∧ (n : Int) < (wordSize 64 : Int)
  omega

@[simp] theorem wellFormed_str (s : String) : (Json.str s).WellFormed := trivial

@[simp] theorem wellFormed_bool (b : Bool) : (Json.bool b).WellFormed := trivial

@[simp] theorem wellFormed_float (x : Float) : (Json.float x).WellFormed := trivial

@[simp] theorem wellFormed_ofInstant (t : Instant) : (ofInstant t).WellFormed := trivial

@[simp] theorem wellFormed_word16 (w : UInt16) : (Json.ofNat w.toNat).WellFormed :=
  wellFormed_ofNat (Nat.lt_trans w.toNat_lt (by decide))

@[simp] theorem wellFormed_word32 (w : UInt32) : (Json.ofNat w.toNat).WellFormed :=
  wellFormed_ofNat (Nat.lt_trans w.toNat_lt (by decide))

@[simp] theorem wellFormed_word64 (w : UInt64) : (Json.ofNat w.toNat).WellFormed :=
  wellFormed_ofNat w.toNat_lt

theorem wellFormed_int {n : Int} (h : IsInt64 n) : (Json.int n).WellFormed := by
  have hsizes : wordSize 63 ≤ wordSize 64 := by decide
  unfold IsInt64 at h
  unfold WellFormed
  omega

/-! ## Optional fields -/

/-- Free JSON that is there, with another value than `null`, or missing. -/
def IsFree (o : Option Json) : Prop := ∀ j ∈ o, j ≠ .null ∧ j.WellFormed ∧ j.Ordered

/-- An optional field is read back when its value is not written as `null`. -/
theorem optional_ofOption {α : Type} {encode : α → Json} {decode : Json → Option α} {o : Option α}
    (h : ∀ a ∈ o, encode a ≠ .null ∧ decode (encode a) = some a) :
    (Slot.given (ofOption encode o)).optional decode = some o := by
  cases o with
  | none => rfl
  | some a =>
    obtain ⟨hne, hdecode⟩ := h a rfl
    -- only `null` is taken for a missing value
    have hoptional : ∀ j, j ≠ .null → (Slot.given j).optional decode = (decode j).map some := by
      intro j hj
      unfold Slot.optional
      split <;> simp_all
    show (Slot.given (encode a)).optional decode = some (some a)
    rw [hoptional _ hne, hdecode, Option.map_some]

/-- An optional text is read back. -/
@[simp] theorem optional_text (o : Option String) :
    (Slot.given (ofOption .str o)).optional asText = some o :=
  optional_ofOption (by simp)

@[simp] theorem optional_bool (o : Option Bool) :
    (Slot.given (ofOption .bool o)).optional asBool = some o :=
  optional_ofOption (by simp)

@[simp] theorem optional_word64 (o : Option UInt64) :
    (Slot.given (ofOption (fun w => .ofNat w.toNat) o)).optional asWord64 = some o :=
  optional_ofOption (fun w _ => ⟨Json.noConfusion, asWord64_ofNat w⟩)

/-- An optional instant of the calendar is read back. -/
theorem optional_instant {o : Option Instant} (h : ∀ t ∈ o, t.inCalendar = true) :
    (Slot.given (ofOption ofInstant o)).optional asInstant = some o :=
  optional_ofOption (fun t ht => ⟨Json.noConfusion, asInstant_ofInstant (h t ht)⟩)

/-- Free JSON is read back, if it is not `null`. -/
theorem optional_free {o : Option Json} (h : IsFree o) :
    (Slot.given (ofOption id o)).optional asAny = some o :=
  optional_ofOption (fun j hj => ⟨(h j hj).1, asAny_of_ordered (h j hj).2.2⟩)

@[simp] theorem ordered_str (s : String) : (Json.str s).Ordered := trivial

@[simp] theorem ordered_bool (b : Bool) : (Json.bool b).Ordered := trivial

@[simp] theorem ordered_int (n : Int) : (Json.int n).Ordered := trivial

@[simp] theorem ordered_ofNat (n : Nat) : (Json.ofNat n).Ordered := trivial

@[simp] theorem ordered_float (x : Float) : (Json.float x).Ordered := trivial

@[simp] theorem ordered_ofInstant (t : Instant) : (ofInstant t).Ordered := trivial

/-- An optional value is written in order if the value is. -/
@[simp] theorem ordered_ofOption {α : Type} {encode : α → Json} {o : Option α}
    (h : ∀ a ∈ o, (encode a).Ordered) :
    (ofOption encode o).Ordered := by
  cases o with
  | none => trivial
  | some a => exact h a rfl

theorem ordered_free {o : Option Json} (h : IsFree o) : (ofOption id o).Ordered :=
  ordered_ofOption (fun j hj => (h j hj).2.2)

/-- An optional value is written well formed if the value is. -/
@[simp] theorem wellFormed_ofOption {α : Type} {encode : α → Json} {o : Option α}
    (h : ∀ a ∈ o, (encode a).WellFormed) :
    (ofOption encode o).WellFormed := by
  cases o with
  | none => trivial
  | some a => exact h a rfl

theorem wellFormed_free {o : Option Json} (h : IsFree o) : (ofOption id o).WellFormed :=
  wellFormed_ofOption (fun j hj => (h j hj).2.1)

/-! ## Lists -/

/-- A list is read back when its items are. -/
theorem asList_arr {α : Type} {encode : α → Json} {decode : Json → Option α} {l : List α}
    (h : ∀ a ∈ l, decode (encode a) = some a) : asList decode (.arr (l.map encode)) = some l := by
  show (l.map encode).mapM decode = some l
  induction l with
  | nil => rfl
  | cons a l ih =>
    obtain ⟨hfirst, hrest⟩ := List.forall_mem_cons.mp h
    rw [List.map_cons, List.mapM_cons, hfirst, ih hrest]
    rfl

/-- What holds of whatever is decoded holds of the items of a list. -/
theorem of_asList {α : Type} {P : α → Prop} {decode : Json → Option α}
    (hdecode : ∀ j a, j.WellFormed → decode j = some a → P a) {j : Json} (hj : j.WellFormed)
    {l : List α} (h : asList decode j = some l) : ∀ a ∈ l, P a := by
  unfold asList at h
  split at h
  · next items =>
    have hitems := wellFormedItems_iff.mp hj
    clear hj
    induction items generalizing l with
    | nil =>
      obtain rfl := Option.some.inj h
      simp
    | cons item items ih =>
      obtain ⟨hitem, hrest⟩ := List.forall_mem_cons.mp hitems
      simp only [List.mapM_cons, Option.bind_eq_bind, Option.bind_eq_some_iff, Option.pure_def,
        Option.some.injEq] at h
      obtain ⟨a, ha, rest, hdecoded, rfl⟩ := h
      exact List.forall_mem_cons.mpr ⟨hdecode item a hitem ha, ih hdecoded hrest⟩
  · contradiction

namespace Slot

variable {α : Type} {P : α → Prop} {decode : Json → Option α}

-- by `rw` on purpose: with `rfl` the kernel would compare the two sides by computing `decode`, up
-- to the bound of a word
/-- What stands in the slot is decoded. -/
@[simp] theorem required_given (decode : Json → Option α) (j : Json) :
    (given j).required decode = decode j := by
  rw [required]

@[simp] theorem orElse_given (fallback : α) (decode : Json → Option α) (j : Json) :
    (given j).orElse fallback decode = decode j := by
  rw [orElse]

/-- A field that is left out is read as missing. -/
@[simp] theorem optional_absent (decode : Json → Option α) :
    absent.optional decode = some none := by
  rw [optional]

/-- What stands in the slot is well formed. -/
def WellFormed : Slot → Prop
  | given j => j.WellFormed
  | _ => True

/-- A required field that is read stands in its slot. -/
theorem exists_of_required {slot : Slot} {a : α} (h : slot.required decode = some a) :
    ∃ j, slot = given j ∧ decode j = some a := by
  cases slot with
  | given j => exact ⟨j, rfl, h⟩
  | absent | beyond => contradiction

/-- What is decoded from a slot is what is decoded from a well-formed value. -/
theorem of_required (hdecode : ∀ j a, j.WellFormed → decode j = some a → P a) {slot : Slot}
    (hslot : slot.WellFormed) {a : α} (h : slot.required decode = some a) : P a := by
  obtain ⟨j, rfl, hj⟩ := exists_of_required h
  exact hdecode j a hslot hj

/-- An optional field that is read with a value stands in its slot, and is not `null`. -/
theorem exists_of_optional {slot : Slot} {a : α} (h : slot.optional decode = some (some a)) :
    ∃ j, slot = given j ∧ j ≠ .null ∧ decode j = some a := by
  unfold optional at h
  split at h
  · simp at h
  · next j hne =>
    obtain ⟨b, hb, hab⟩ := Option.map_eq_some_iff.mp h
    exact ⟨j, rfl, hne, Option.some.inj hab ▸ hb⟩
  · simp at h
  · contradiction

/-- What holds of everything that is decoded holds of the value of an optional field. -/
theorem of_optional (hdecode : ∀ j a, j.WellFormed → decode j = some a → P a) {slot : Slot}
    (hslot : slot.WellFormed) {o : Option α} (h : slot.optional decode = some o) :
    ∀ a ∈ o, P a := by
  intro a ha
  obtain rfl := Option.mem_def.mp ha
  obtain ⟨j, rfl, -, hj⟩ := exists_of_optional h
  exact hdecode j a hslot hj

/-- A required instant that is read is one of the calendar. -/
theorem inCalendar_of_required {slot : Slot} {t : Instant} (h : slot.required asInstant = some t) :
    t.inCalendar = true := by
  obtain ⟨j, -, hj⟩ := exists_of_required h
  exact inCalendar_of_asInstant hj

theorem inCalendar_of_optional {slot : Slot} {o : Option Instant}
    (h : slot.optional asInstant = some o) :
    ∀ t ∈ o, t.inCalendar = true := by
  intro t ht
  obtain rfl := Option.mem_def.mp ht
  obtain ⟨j, -, -, hj⟩ := exists_of_optional h
  exact inCalendar_of_asInstant hj

theorem isInt64_of_required {slot : Slot} {n : Int}
    (h : slot.required asInt64 = some n) : IsInt64 n := by
  obtain ⟨j, -, hj⟩ := exists_of_required h
  exact isInt64_of_asInt64 hj

theorem isInt64_of_optional {slot : Slot} {o : Option Int} (h : slot.optional asInt64 = some o) :
    ∀ n ∈ o, IsInt64 n := by
  intro n hn
  obtain rfl := Option.mem_def.mp hn
  obtain ⟨j, -, -, hj⟩ := exists_of_optional h
  exact isInt64_of_asInt64 hj

/-- Free JSON that is read is never `null`. -/
theorem isFree_of_optional {slot : Slot} (hslot : slot.WellFormed) {o : Option Json}
    (h : slot.optional asAny = some o) :
    IsFree o := by
  intro j hj
  obtain rfl := Option.mem_def.mp hj
  obtain ⟨j', rfl, hne, hj'⟩ := exists_of_optional h
  obtain rfl := Option.some.inj hj'
  exact ⟨canonical_ne_null hne, wellFormed_canonical hslot, ordered_canonical j'⟩

end Slot

end Json

end JobFleet
