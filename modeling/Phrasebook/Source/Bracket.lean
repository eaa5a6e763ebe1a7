import Phrasebook.Source.Literal

/-!
# Brackets

The bracket that closes another on the same line, and whether the text between them joins strings
with two dots. Brackets and dots inside literals do not count.
-/

namespace Phrasebook.Source

/-- The position of the bracket that brings the depth back to zero. `depth` counts the open
brackets before the text, and `index` is the position of its first character. -/
def closingFrom : Position → Int → Nat → Text → Option Nat
  | _, _, _, [] => none
  | position, depth, index, c :: t =>
    if position = .code && c = '[' then closingFrom .code (depth + 1) (index + 1) t
    else if position = .code && c = ']' then
      if depth - 1 = 0 then some index else closingFrom .code (depth - 1) (index + 1) t
    else closingFrom (position.step c) depth (index + 1) t

/-- The position of the bracket that closes the one at `start`. -/
def closingBracket (line : Text) (start : Nat) : Option Nat :=
  closingFrom .code 0 start (line.drop start)

/-- Whether two dots in a row stand outside literals. -/
def hasDotsFrom : Position → Text → Bool
  | _, [] => false
  | position, c :: t =>
    position = .code && c = '.' && t.head? = some '.' || hasDotsFrom (position.step c) t

/-- Whether the expression in the brackets that open at `start` joins strings. Brackets that do not
close on the line never do. -/
def joinsInBrackets (line : Text) (start : Nat) : Bool :=
  match closingBracket line start with
  | none => false
  | some closing => hasDotsFrom .code ((line.take closing).drop (start + 1))

end Phrasebook.Source
