import Phrasebook.Number.Double

/-!
# Shares

The part of a whole in percent, as progress reports and coverage give it.
-/

namespace Phrasebook

/-- A part of a whole. -/
structure Share where
  /-- What is counted. -/
  part : Int
  /-- All there is. -/
  whole : Int
  deriving DecidableEq, Repr

/-- The part in percent of the whole; 0 when the whole is not positive. -/
def Share.percent (s : Share) : Double :=
  if s.whole ≤ 0 then Double.ofInt 0
  else (Double.ofQuotient (s.part < 0) s.part.natAbs s.whole.natAbs).mulNat 100

end Phrasebook
