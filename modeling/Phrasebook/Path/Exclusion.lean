import Phrasebook.Path.Basic
import Phrasebook.Text.Fold

/-!
# Excluded directories

A file is excluded when the directories between the base directory and the file contain all names
of an exclusion, one after another and up to case. The name of the file itself does not count, and
backslashes separate names as slashes do.
-/

namespace Phrasebook.Path

/-- The names of a path up to case, with backslashes read as slashes. -/
def foldedSegments (t : Text) : List Text :=
  (ofText (t.map fun c => if c = '\\' then '/' else c)).segments.map Text.fold

/-- Whether some names stand in a list, one after another. -/
def occursIn (names : List Text) : List Text → Bool
  | [] => names.isEmpty
  | name :: rest => names.isPrefixOf (name :: rest) || occursIn names rest

/-- The path of a file below a base directory; a file that is not there keeps its path. -/
def below (path base : Text) : Text :=
  match (ofText path).relativeTo? (ofText base) with
  | some relative => relative.text
  | none => path

/-- Whether a file lies under an excluded directory of the base directory. -/
def isExcluded (path base : Text) (exclusions : List Text) : Bool :=
  let directories := (foldedSegments (below path base)).dropLast
  exclusions.any fun exclusion =>
    let names := foldedSegments exclusion
    !names.isEmpty && occursIn names directories

end Phrasebook.Path
