import Mathlib.Algebra.Order.Field.Power
import Mathlib.Data.Rat.Cast.Order
import Mathlib.Tactic.Linarith
import Mathlib.Tactic.Positivity
import Phrasebook.Number.Double

/-!
# The value of a double

A finite double is a rational number, and comparing it to a natural number compares that number.
-/

namespace Phrasebook.Double

/-- The rational number that a double is, if it is finite. -/
def value? : Double → Option ℚ
  | .finite negative mantissa exponent =>
    some (if negative then -(mantissa * 2 ^ exponent) else mantissa * 2 ^ exponent)
  | _ => none

/-- The denominator of a double is positive. -/
theorem quotient_pos (mantissa : Nat) (exponent : Int) : 0 < (quotient mantissa exponent).2 := by
  unfold quotient scaled
  split <;> simp [Nat.one_shiftLeft]

/-- The quotient of a mantissa and an exponent is the mantissa times the power of two. -/
theorem quotient_eq (mantissa : Nat) (exponent : Int) :
    ((quotient mantissa exponent).1 : ℚ) =
      mantissa * 2 ^ exponent * (quotient mantissa exponent).2 := by
  unfold quotient scaled
  split
  · rename_i e he
    obtain rfl : exponent = -(e : Int) := by rw [← Int.ofNat_eq_natCast, ← he, neg_neg]
    simp [Nat.one_shiftLeft]
  · rename_i e he
    obtain rfl : exponent = ((e + 1 : Nat) : Int) := by
      rw [← neg_neg exponent, he, Int.negSucc_eq, neg_neg]
      rfl
    simp only [Nat.shiftLeft_eq, zpow_natCast, Nat.cast_mul, Nat.cast_pow, Nat.cast_ofNat,
      Nat.cast_one, mul_one]

/-- A natural number is below a quotient exactly when it is below the mantissa times the power. -/
theorem mul_lt_quotient_iff (mantissa n : Nat) (exponent : Int) :
    n * (quotient mantissa exponent).2 < (quotient mantissa exponent).1 ↔
      (n : ℚ) < mantissa * 2 ^ exponent := by
  have hpos : (0 : ℚ) < (quotient mantissa exponent).2 :=
    Nat.cast_pos.2 (quotient_pos mantissa exponent)
  rw [← Nat.cast_lt (α := ℚ), quotient_eq, Nat.cast_mul, mul_lt_mul_iff_left₀ hpos]

variable {d : Double} {q : ℚ}

/-- A finite double is greater than a natural number exactly when its value is. -/
theorem gtNat_iff (h : d.value? = some q) (n : Nat) : d.gtNat n = true ↔ (n : ℚ) < q := by
  cases d with
  | finite negative mantissa exponent =>
    have hiff := mul_lt_quotient_iff mantissa n exponent
    obtain rfl := Option.some.inj h
    have hmagnitude : (0 : ℚ) ≤ mantissa * 2 ^ exponent := by positivity
    cases negative with
    | false => simpa [gtNat] using hiff
    | true =>
      have hn : (0 : ℚ) ≤ n := Nat.cast_nonneg n
      simp only [gtNat, Bool.not_true, Bool.false_and, Bool.false_eq_true, if_true, false_iff,
        not_lt]
      linarith
  | infinite negative => simp [value?] at h
  | nan => simp [value?] at h

/-- A finite double is less than zero exactly when its value is. -/
theorem ltNat_zero_iff (h : d.value? = some q) : d.ltNat 0 = true ↔ q < 0 := by
  cases d with
  | finite negative mantissa exponent =>
    have hiff := mul_lt_quotient_iff mantissa 0 exponent
    obtain rfl := Option.some.inj h
    have hmagnitude : (0 : ℚ) ≤ mantissa * 2 ^ exponent := by positivity
    cases negative with
    | false => simpa [ltNat] using hmagnitude
    | true => simpa [ltNat] using hiff
  | infinite negative => simp [value?] at h
  | nan => simp [value?] at h

end Phrasebook.Double
