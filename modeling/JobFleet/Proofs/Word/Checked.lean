/-
  JobFleet.Proofs.Word.Checked: arithmetic on signed 64-bit words that faults.

  The numbers of the library are unbounded, and a division by zero has a result.  Whether a
  calculation can be made on words is asked by making it again with the operations of this module:
  each of them faults where a word does not hold its result, and the division faults where the
  divisor is zero.

  Main results:
    * `add_eq`, `sub_eq`, `mul_eq`, `div_eq` — where the result fits, an operation on words gives
      it.
-/
import JobFleet.Text.Decimal

namespace JobFleet.Word

open JobFleet.Text

/-- What ends a calculation on words. -/
inductive Fault
  /-- A word does not hold the result. -/
  | overflow
  /-- The divisor is zero. -/
  | divisionByZero
deriving DecidableEq, Repr

/-- A signed word of `bits` bits holds the number. -/
def Fits (bits : Nat) (n : Int) : Prop := -(wordSize (bits - 1) : Int) ≤ n ∧
    n < (wordSize (bits - 1) : Int)

instance (bits : Nat) (n : Int) : Decidable (Fits bits n) := inferInstanceAs (Decidable (_ ∧ _))

/-- The number in a word. -/
def hold (n : Int) : Except Fault Int := if Fits 64 n then .ok n else .error .overflow

/-- The sum of two words. -/
def add (a b : Int) : Except Fault Int := hold (a + b)

/-- The difference of two words. -/
def sub (a b : Int) : Except Fault Int := hold (a - b)

/-- The product of two words. -/
def mul (a b : Int) : Except Fault Int := hold (a * b)

/-- The quotient of two words, rounded toward zero. -/
def div (a b : Int) : Except Fault Int := if b = 0 then .error .divisionByZero else hold (a.tdiv b)

/-- The number in a word of `bits` bits, if that holds it. -/
def narrow? (bits : Nat) (n : Int) : Option Int := if Fits bits n then some n else none

variable {a b n : Int}

/-- The bounds of a signed word of 64 bits. -/
theorem fits_word : Fits 64 n ↔ -9223372036854775808 ≤ n ∧ n < 9223372036854775808 := Iff.rfl

theorem fits_half : Fits 32 n ↔ -2147483648 ≤ n ∧ n < 2147483648 := Iff.rfl

theorem hold_eq (h : Fits 64 n) : hold n = .ok n := if_pos h

/-- A sum that fits is calculated without a fault. -/
theorem add_eq (h : Fits 64 (a + b)) : add a b = .ok (a + b) := hold_eq h

theorem sub_eq (h : Fits 64 (a - b)) : sub a b = .ok (a - b) := hold_eq h

theorem mul_eq (h : Fits 64 (a * b)) : mul a b = .ok (a * b) := hold_eq h

/-- Of numbers that are not negative the quotient rounded toward zero is the one rounded down. -/
theorem div_eq (ha : 0 ≤ a) (hb : 0 < b) (h : Fits 64 a) : div a b = .ok (a / b) := by
  have hquotient : a / b ≤ a := Int.ediv_le_self b ha
  have hnonneg : 0 ≤ a / b := Int.ediv_nonneg ha (Int.le_of_lt hb)
  have hfits : Fits 64 (a / b) := by
    rw [fits_word] at h ⊢
    omega
  unfold div
  rw [if_neg (Int.ne_of_gt hb), Int.tdiv_eq_ediv_of_nonneg ha, hold_eq hfits]

/-- A calculation goes on with the result of its first step. -/
theorem then_eq {α : Type} {x : Except Fault Int} (h : x = .ok n) (f : Int → Except Fault α) :
    x >>= f = f n := by
  rw [h]
  rfl

end JobFleet.Word
