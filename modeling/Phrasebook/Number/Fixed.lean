import Phrasebook.Number.Double

/-!
# Fixed places

Numbers written with a fixed number of decimal places. The exact value is rounded, a tie to the
even neighbour.
-/

namespace Phrasebook

/-- A natural number of units of the last place, with a point before the given number of places. -/
def fixedText (places units : Nat) : Text :=
  let fraction := Text.ofNat (units % Nat.pow 10 places)
  Text.ofNat (units / Nat.pow 10 places) ++ '.' :: List.replicate (places - fraction.length) '0' ++
    fraction

/-- A double with the given number of decimal places. -/
def Double.fixed (places : Nat) : Double → Text
  | .finite negative mantissa exponent =>
    let (num, den) := Double.quotient mantissa exponent
    let text := fixedText places (divNearest (num * Nat.pow 10 places) den)
    if negative then '-' :: text else text
  | .infinite negative => if negative then "-inf".toList else "inf".toList
  | .nan => "nan".toList

end Phrasebook
