/-!
# Character tables

Membership of a code point in a list of closed ranges, as the tables of character properties are
written down.
-/

namespace Phrasebook.Text

/-- Whether a code point lies in one of the closed ranges. -/
def inRanges (ranges : List (Nat × Nat)) (n : Nat) : Bool :=
  ranges.any fun range => range.1 ≤ n && n ≤ range.2

end Phrasebook.Text
