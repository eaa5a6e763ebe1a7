import Phrasebook.Text.Fold

/-!
# Key order

Keys are listed by their folded forms, and keys that differ only in case by their spelling.
-/

namespace Phrasebook

/-- Whether the first key does not come after the second: folded forms decide, then spellings. -/
def keyLe (a b : Text) : Bool :=
  let foldedA := Text.fold a
  let foldedB := Text.fold b
  if foldedA = foldedB then Text.le a b else Text.le foldedA foldedB

/-- The keys of a list in key order. -/
def sortKeys (keys : List Text) : List Text :=
  keys.mergeSort keyLe

end Phrasebook
