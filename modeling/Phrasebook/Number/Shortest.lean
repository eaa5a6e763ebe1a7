import Phrasebook.Number.Double

/-!
# Shortest decimals

A double is written with the fewest digits that read back as the same number; of several such
decimals the nearest one is taken. Very small and very large numbers get an exponent.
-/

namespace Phrasebook.Double

/-- Whether two doubles are the same finite number. -/
def sameNumber : Double → Double → Bool
  | .finite s m e, .finite s' m' e' =>
    let (num, den) := quotient m e
    let (num', den') := quotient m' e'
    s == s' && num * den' == num' * den
  | _, _ => false

/-- The quotient of a number and a power of ten. -/
def shifted (num den : Nat) (exponent : Int) : Nat × Nat :=
  match exponent with
  | .ofNat e => (num, den * Nat.pow 10 e)
  | .negSucc e => (num * Nat.pow 10 (e + 1), den)

/-- The exponent of the greatest power of ten that is not above a quotient of positive numbers. The
exponent of the power of two below it leaves a few candidates. -/
def decimalOrder (num den : Nat) : Int :=
  let guess := binaryOrder num den * 30103 / 100000
  let isBelow (k : Int) : Bool :=
    let (n, d) := shifted num den k
    d ≤ n
  if isBelow (guess + 2) then guess + 2
  else if isBelow (guess + 1) then guess + 1
  else if isBelow guess then guess
  else guess - 1

/-- The nearest decimal with so many digits that reads back as the double: its digits, and the
exponent of the last one. -/
def decimalOf? (d : Double) (num den : Nat) (order : Int) (digits : Nat) : Option (Nat × Int) :=
  let exponent := order + 1 - digits
  let (n, k) := shifted num den exponent
  let low := n / k
  let near := if 2 * (n - low * k) ≤ k then [low, low + 1] else [low + 1, low]
  (near.find? fun m => sameNumber d (ofDecimal false m exponent)).map (·, exponent)

/-- The shortest decimal that reads back as a positive double. -/
def shortest? (mantissa : Nat) (exponent : Int) : Option (Nat × Int) :=
  let (num, den) := quotient mantissa exponent
  let order := decimalOrder num den
  (List.range' 1 17).findSome? (decimalOf? (.finite false mantissa exponent) num den order)

/-- The digits of a number without the zeros at their end, and how many zeros there were. -/
def dropZeros (digits : Text) : Text × Nat :=
  let kept := (digits.reverse.dropWhile (· == '0')).reverse
  (kept, digits.length - kept.length)

/-- The text of a decimal without its sign. -/
def decimalText (digits : Nat) (exponent : Int) : Text :=
  let (kept, zeros) := dropZeros (Text.ofNat digits)
  let point : Int := kept.length + (exponent + zeros)
  if -4 < point && point ≤ 0 then
    "0.".toList ++ List.replicate (-point).toNat '0' ++ kept
  else if 0 < point && point ≤ 16 then
    let n := point.toNat
    if kept.length ≤ n then kept ++ List.replicate (n - kept.length) '0' ++ ".0".toList
    else kept.take n ++ '.' :: kept.drop n
  else
    let fraction := if kept.length ≤ 1 then [] else '.' :: kept.drop 1
    let e := point - 1
    let size := Text.ofNat e.natAbs
    kept.take 1 ++ fraction ++ 'e' :: (if e < 0 then '-' else '+') ::
      (List.replicate (2 - size.length) '0' ++ size)

/-- The shortest text of a double. -/
def text : Double → Text
  | .finite negative mantissa exponent =>
    let magnitude :=
      match shortest? mantissa exponent with
      | some (digits, e) => decimalText digits e
      | none => "0.0".toList
    if negative then '-' :: magnitude else magnitude
  | .infinite negative => if negative then "-inf".toList else "inf".toList
  | .nan => "nan".toList

end Phrasebook.Double
