import Phrasebook.Proofs.Number.Value

/-!
# Powers of two

Rounding does nothing to a power of two: the nearest double is the power itself, with the smallest
mantissa of full length. Only an exponent above 1023 is out of range.
-/

namespace Phrasebook.Double

/-- The greatest power of two that is not above a power of two is that power. -/
theorem binaryOrder_two_pow (n : Nat) : binaryOrder (2 ^ n) 1 = n := by
  have hone : Nat.log2 1 = 0 := by decide
  have hscaled : scaled (2 ^ n) 1 (n : Int) = (2 ^ n, 2 ^ n) := by
    simp [scaled, Nat.shiftLeft_eq]
  simp [binaryOrder, hone, hscaled]

/-- A power of two has the smallest mantissa of 53 binary digits. -/
theorem divNearest_scaled_two_pow (n : Nat) :
    divNearest (scaled (2 ^ n) 1 (n - 52)).1 (scaled (2 ^ n) 1 (n - 52)).2 = 2 ^ 52 := by
  by_cases hn : 52 ≤ n
  · obtain ⟨e, rfl⟩ := Nat.exists_eq_add_of_le hn
    have hexponent : ((52 + e : Nat) : Int) - 52 = Int.ofNat e := by
      rw [Int.ofNat_eq_natCast]
      omega
    rw [hexponent, scaled, Nat.one_shiftLeft, Nat.pow_add]
    exact divNearest_mul _ (Nat.two_pow_pos e)
  · have hexponent : (n : Int) - 52 = Int.negSucc (51 - n) := by
      rw [Int.negSucc_eq]
      omega
    have hdigits : 51 - n + 1 = 52 - n := by omega
    rw [hexponent, scaled, hdigits, Nat.shiftLeft_eq, ← Nat.pow_add, Nat.add_sub_of_le (by omega)]
    exact divNearest_mul (2 ^ 52) Nat.one_pos

/-- The double nearest to a power of two. -/
theorem ofInt_two_pow (n : Nat) : ofInt (2 ^ n : Nat) =
    if n < 1024 then .finite false (2 ^ 52) (n - 52) else .infinite false := by
  have hpos : 2 ^ n ≠ 0 := Nat.ne_of_gt (Nat.two_pow_pos n)
  have hexponent : max ((n : Int) - 52) (-1074) = n - 52 := by omega
  have hsign : decide (((2 ^ n : Nat) : Int) < 0) = false :=
    decide_eq_false (Int.not_lt.2 (Int.natCast_nonneg _))
  rw [ofInt, Int.natAbs_natCast, hsign, ofQuotient, if_neg hpos, binaryOrder_two_pow]
  dsimp only
  rw [hexponent, divNearest_scaled_two_pow]
  by_cases hn : n < 1024
  · -- At the greatest exponent the mantissa stays below its bound.
    have hbelow : ¬ (n : Int) - 52 > 971 := by omega
    simp [hbelow, hn]
  · have habove : (n : Int) - 52 > 971 := by omega
    simp [habove, hn]

/-- A power of two is a finite double up to the exponent 1023. -/
theorem isFinite_ofInt_two_pow (n : Nat) :
    (ofInt (2 ^ n : Nat)).isFinite = decide (n < 1024) := by
  rw [ofInt_two_pow]
  by_cases hn : n < 1024 <;> simp [hn, isFinite]

/-- Up to the exponent 1023 the double nearest to a power of two is that power. -/
theorem value?_ofInt_two_pow {n : Nat} (hn : n < 1024) :
    (ofInt (2 ^ n : Nat)).value? = some (2 ^ n) := by
  have hvalue : ((2 ^ 52 : Nat) : ℚ) * 2 ^ ((n : Int) - 52) = 2 ^ n := by
    rw [Nat.cast_pow, Nat.cast_ofNat, ← zpow_natCast, ← zpow_natCast, ← zpow_add₀ two_ne_zero]
    congr 1
    omega
  rw [ofInt_two_pow, if_pos hn, value?, hvalue]
  rfl

end Phrasebook.Double
