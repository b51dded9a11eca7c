import Mathlib.Algebra.Group.Int.Even
import Mathlib.Data.Int.Log
import Mathlib.Data.Rat.Floor

/-!
# Rounding to a number of digits

A number format keeps so many digits of a number and rounds the rest to the nearest, in a tie to the
even one. The base and the number of digits are parameters: 24 digits to the base 2 are the floats of C++, 6 to
the base 10 what a stream writes of them.

`roundDigits_intCast` is what a program relies on that counts in such numbers: whole numbers that have no
more digits are kept.
-/

set_option autoImplicit false

namespace CxxLab.Lib

/-- The nearest whole number, in a tie the even one. -/
def roundEven (x : ℚ) : ℤ :=
  if x - ⌊x⌋ < 1 / 2 ∨ x - ⌊x⌋ = 1 / 2 ∧ Even ⌊x⌋ then ⌊x⌋ else ⌊x⌋ + 1

/-- The nearest multiple of a unit. -/
def roundTo (unit x : ℚ) : ℚ := roundEven (x / unit) * unit

/-- The exponent of the last digit that is kept of a number. -/
def lastDigit (b digits : ℕ) (x : ℚ) : ℤ := Int.log b |x| + 1 - digits

/-- So many digits of a number, but none below an exponent. -/
def roundDigits (b digits : ℕ) (least : ℤ) (x : ℚ) : ℚ :=
  roundTo ((b : ℚ) ^ max (lastDigit b digits x) least) x

@[simp] theorem roundEven_intCast (n : ℤ) : roundEven n = n := by
  simp [roundEven]

theorem roundTo_mul {unit : ℚ} (hunit : unit ≠ 0) (n : ℤ) : roundTo unit (n * unit) = n * unit := by
  rw [roundTo, mul_div_cancel_right₀ _ hunit, roundEven_intCast]

theorem roundTo_zpow_intCast {b : ℕ} (hb : b ≠ 0) {e : ℤ} (he : e ≤ 0) (n : ℤ) :
    roundTo ((b : ℚ) ^ e) n = n := by
  have hbase : (b : ℚ) ≠ 0 := Nat.cast_ne_zero.mpr hb
  obtain ⟨k, rfl⟩ : ∃ k : ℕ, e = -k := ⟨e.natAbs, by omega⟩
  have hn : (n : ℚ) = ((n * (b : ℤ) ^ k : ℤ) : ℚ) * (b : ℚ) ^ (-k : ℤ) := by
    push_cast
    rw [mul_assoc, ← zpow_natCast, ← zpow_add₀ hbase, add_neg_cancel, zpow_zero, mul_one]
  rw [hn, roundTo_mul (zpow_ne_zero _ hbase)]

/-- No digit behind the point of a whole number is kept, and so none is lost, unless it has too many
before it. -/
theorem lastDigit_intCast_le {b digits : ℕ} (hdigits : digits ≠ 0) {n : ℤ}
    (hn : n.natAbs < b ^ digits) : lastDigit b digits n ≤ 0 := by
  have habs : |(n : ℚ)| = (n.natAbs : ℚ) := by
    rw [Nat.cast_natAbs, Int.cast_abs]
  have hlog : Nat.log b n.natAbs < digits := Nat.log_lt_of_lt_pow' hdigits hn
  rw [lastDigit, habs, Int.log_natCast]
  omega

/-- **Whole numbers with no more digits than are kept** are kept. -/
theorem roundDigits_intCast {b digits : ℕ} (hb : b ≠ 0) (hdigits : digits ≠ 0) {least : ℤ}
    (hleast : least ≤ 0) {n : ℤ} (hn : n.natAbs < b ^ digits) :
    roundDigits b digits least n = n :=
  roundTo_zpow_intCast hb (max_le (lastDigit_intCast_le hdigits hn) hleast) n

end CxxLab.Lib
