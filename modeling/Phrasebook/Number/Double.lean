import Phrasebook.Text.Basic

/-!
# Doubles

Binary floating point numbers of 64 bits, kept exactly: a finite one is a mantissa times a power of
two. A quotient or a decimal is rounded to the nearest double, a tie to the even mantissa.
-/

namespace Phrasebook

/-- A floating point number of 64 bits. -/
inductive Double where
  /-- The number `mantissa * 2 ^ exponent`, negated when the flag is set. -/
  | finite (negative : Bool) (mantissa : Nat) (exponent : Int)
  /-- An infinite number. -/
  | infinite (negative : Bool)
  /-- No number. -/
  | nan
  deriving DecidableEq, Repr

/-- A quotient rounded to the nearest integer, a tie to the even one. -/
def divNearest (num den : Nat) : Nat :=
  let q := num / den
  let r := num % den
  if 2 * r < den || 2 * r == den && q % 2 == 0 then q else q + 1

/-- An exact quotient is not changed by rounding. -/
theorem divNearest_mul (n : Nat) {den : Nat} (h : 0 < den) : divNearest (n * den) den = n := by
  simp [divNearest, Nat.mul_div_cancel n h, h]

namespace Double

/-- The quotient of a quotient and a power of two, as numerator and denominator. -/
def scaled (num den : Nat) (exponent : Int) : Nat × Nat :=
  match exponent with
  | .ofNat e => (num, den <<< e)
  | .negSucc e => (num <<< (e + 1), den)

/-- The exponent of the greatest power of two that is not above a quotient of positive numbers. -/
def binaryOrder (num den : Nat) : Int :=
  let k : Int := num.log2 - den.log2
  let (n, d) := scaled num den k
  if n < d then k - 1 else k

/-- The double nearest to a quotient. -/
def ofQuotient (negative : Bool) (num den : Nat) : Double :=
  if num = 0 then .finite negative 0 0
  else
    let exponent := max (binaryOrder num den - 52) (-1074)
    let (n, d) := scaled num den exponent
    let mantissa := divNearest n d
    if exponent > 971 || exponent == 971 && mantissa ≥ 1 <<< 53 then .infinite negative
    else .finite negative mantissa exponent

/-- The double nearest to an integer. -/
def ofInt (i : Int) : Double :=
  ofQuotient (i < 0) i.natAbs 1

/-- The double nearest to `digits * 10 ^ exponent`. Exponents far out of range are settled by the
number of digits alone. -/
def ofDecimal (negative : Bool) (digits : Nat) (exponent : Int) : Double :=
  if digits = 0 then .finite negative 0 0
  else
    let order : Int := (Nat.toDigits 10 digits).length + exponent
    if order > 400 then .infinite negative
    else if order < -400 then .finite negative 0 0
    else
      match exponent with
      | .ofNat e => ofQuotient negative (digits * Nat.pow 10 e) 1
      | .negSucc e => ofQuotient negative digits (Nat.pow 10 (e + 1))

/-- A finite mantissa and exponent as a quotient. -/
def quotient (mantissa : Nat) (exponent : Int) : Nat × Nat :=
  scaled mantissa 1 (-exponent)

/-- A double times a natural number. -/
def mulNat (d : Double) (n : Nat) : Double :=
  match d with
  | .finite negative mantissa exponent =>
    let (num, den) := quotient mantissa exponent
    ofQuotient negative (num * n) den
  | .infinite negative => if n = 0 then .nan else .infinite negative
  | .nan => .nan

/-- The sum of two doubles. -/
def add : Double → Double → Double
  | .finite s m e, .finite s' m' e' =>
    let exponent := min e e'
    let whole (negative : Bool) (mantissa : Nat) (e : Int) : Int :=
      (if negative then -1 else 1) * (mantissa <<< (e - exponent).toNat : Nat)
    let sum := whole s m e + whole s' m' e'
    let (num, den) := quotient sum.natAbs exponent
    ofQuotient (sum < 0 || s && s') num den
  | .infinite s, .infinite s' => if s = s' then .infinite s else .nan
  | .infinite s, .finite .. => .infinite s
  | .finite .., .infinite s => .infinite s
  | _, _ => .nan

/-- Whether a double is less than a natural number. -/
def ltNat (d : Double) (n : Nat) : Bool :=
  match d with
  | .finite negative mantissa exponent =>
    let (num, den) := quotient mantissa exponent
    if negative then 0 < num || 0 < n else num < n * den
  | .infinite negative => negative
  | .nan => false

/-- Whether a double is greater than a natural number. -/
def gtNat (d : Double) (n : Nat) : Bool :=
  match d with
  | .finite negative mantissa exponent =>
    let (num, den) := quotient mantissa exponent
    !negative && n * den < num
  | .infinite negative => !negative
  | .nan => false

/-- Whether a double is a number that is not infinite. -/
def isFinite : Double → Bool
  | .finite .. => true
  | _ => false

/-- The integer that a double is, if it is one. -/
def toInt? (d : Double) : Option Int :=
  match d with
  | .finite negative mantissa exponent =>
    let (num, den) := quotient mantissa exponent
    if num % den = 0 then some (if negative then -(num / den : Nat) else (num / den : Nat)) else none
  | _ => none

end Double

end Phrasebook
