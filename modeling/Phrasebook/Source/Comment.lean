import Phrasebook.Source.Literal

/-!
# Comments

Two dashes outside literals open a comment, which runs to the end of the line.
-/

namespace Phrasebook.Source

/-- The characters of a line before its comment, from a given position on. -/
def codeFrom : Position → Text → Text
  | _, [] => []
  | position, c :: t =>
    if position = .code && c = '-' && t.head? = some '-' then []
    else c :: codeFrom (position.step c) t

/-- A line without its comment. -/
def stripComment (line : Text) : Text :=
  codeFrom .code line

end Phrasebook.Source
