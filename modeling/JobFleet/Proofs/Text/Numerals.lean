/-
  JobFleet.Proofs.Text.Numerals: the digits that are written for a number are the digits that it is
  read from.

  Main results:
    * `readNat?_toString`, `readNat?_padded` — a number is read back from its digits, and from its
      digits with zeros before them.
    * `head?_toString` — only zero is written with a leading zero.
    * `length_padded` — a number that fits a width is written in it.
-/
import JobFleet.Proofs.Text.Tokens

namespace JobFleet.Text

/-! ## Digits -/

/-- The digits are the characters from zero to nine. -/
theorem isDigit_iff {c : Char} : isDigit c = true ↔ '0' ≤ c ∧ c ≤ '9' := by
  unfold isDigit digit?
  split <;> simp [*]

theorem isDigit_eq (c : Char) : isDigit c = c.isDigit := by
  rw [Bool.eq_iff_iff, isDigit_iff]
  simp [Char.isDigit, Char.le_def]

/-- No digit is white space. -/
theorem isBlank_of_isDigit {c : Char} (h : isDigit c = true) : isBlank c = false := by
  obtain ⟨hlow, hhigh⟩ := isDigit_iff.mp h
  have h₁ : 48 ≤ c.toNat := hlow
  have h₂ : c.toNat ≤ 57 := hhigh
  unfold isBlank
  simp
  omega

theorem toList_toString (n : Nat) : (toString n).toList = Nat.toDigits 10 n := by
  rw [Nat.toString_eq_ofList_toDigits, String.toList_ofList]

theorem toString_ne_nil (n : Nat) : (toString n).toList ≠ [] := by
  rw [toList_toString]
  exact Nat.toDigits_ne_nil

theorem isDigit_of_mem_toString {n : Nat} {c : Char} (h : c ∈ (toString n).toList) :
    isDigit c = true := by
  rw [toList_toString] at h
  rw [isDigit_eq]
  exact Nat.isDigit_of_mem_toDigits (by decide) (by decide) h

/-- Only zero is written with a leading zero. -/
theorem head?_toString {n : Nat} (h : 0 < n) : (toString n).toList.head? ≠ some '0' := by
  rw [toList_toString]
  induction n using Nat.strongRecOn with
  | ind n ih =>
    by_cases hlast : n < 10
    · rw [Nat.toDigits_of_lt_base hlast, List.head?_cons]
      simp [Nat.ne_of_gt h]
    · have hprefix := ih (n / 10) (by omega) (by omega)
      obtain ⟨first, rest, hdigits⟩ :=
        List.exists_cons_of_ne_nil (Nat.toDigits_ne_nil (b := 10) (n := n / 10))
      rw [Nat.toDigits_of_base_le (by decide) (by omega), hdigits]
      rwa [hdigits] at hprefix

/-! ## Reading back -/

/-- The value of digits is the number that they write in base ten. -/
theorem digitsValue_eq (sofar : Nat) (cs : List Char) :
    digitsValue sofar cs = Nat.ofDigitChars 10 cs sofar := rfl

/-- Digits are read as their value. -/
theorem readNat?_eq_some {cs : List Char} (hne : cs ≠ []) (hdigits : ∀ c ∈ cs, isDigit c = true) :
    readNat? cs = some (digitsValue 0 cs) :=
  readNat?_eq_some_iff.mpr ⟨hne, fun c hc => isDigit_iff.mp (hdigits c hc), rfl⟩

/-- A number is read back from its digits. -/
theorem readNat?_toString (n : Nat) : readNat? (toString n).toList = some n := by
  rw [readNat?_eq_some (toString_ne_nil n) (fun _ => isDigit_of_mem_toString),
    digitsValue_eq, toList_toString, Nat.ofDigitChars_ten_toDigits]

/-- Padding puts zeros before the digits. -/
theorem toList_padded (width n : Nat) : (padded width n).toList =
    List.replicate (width - (toString n).toList.length) '0' ++ (toString n).toList := by
  unfold padded
  rw [String.toList_append, String.toList_ofList, String.length_toList]

theorem isDigit_of_mem_padded {width n : Nat} {c : Char} (h : c ∈ (padded width n).toList) :
    isDigit c = true := by
  rw [toList_padded] at h
  obtain hzero | hdigit := List.mem_append.mp h
  · obtain rfl := List.eq_of_mem_replicate hzero
    rfl
  · exact isDigit_of_mem_toString hdigit

/-- A number is read back from its digits with zeros before them. -/
theorem readNat?_padded (width n : Nat) : readNat? (padded width n).toList = some n := by
  have hne : (padded width n).toList ≠ [] := by
    rw [toList_padded]
    exact List.append_ne_nil_of_right_ne_nil _ (toString_ne_nil n)
  rw [readNat?_eq_some hne (fun _ => isDigit_of_mem_padded), digitsValue_eq,
    toList_padded, toList_toString, Nat.ofDigitChars_append, Nat.ofDigitChars_replicate_zero,
    Nat.mul_zero, Nat.ofDigitChars_ten_toDigits]

/-- A number that fits a width is written in it. -/
theorem length_padded {width n : Nat} (hwidth : 0 < width) (h : n < Nat.pow 10 width) :
    (padded width n).toList.length = width := by
  have hfits := (Nat.length_toDigits_le_iff (by decide) hwidth).mpr h
  rw [toList_padded, toList_toString, List.length_append, List.length_replicate]
  omega

/-- Padding never shortens. -/
theorem le_length_padded (width n : Nat) : width ≤ (padded width n).toList.length := by
  rw [toList_padded, List.length_append, List.length_replicate]
  omega

end JobFleet.Text
