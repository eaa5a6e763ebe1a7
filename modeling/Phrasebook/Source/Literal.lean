import Phrasebook.Text.Blank

/-!
# Quoted literals of Lua source

A short literal stands between two double quotes or two single quotes. A backslash takes the next
character with it, whatever that is, so a quote after a backslash closes nothing. A literal has to
close on the line where it opens; its raw text is what stands between the quotes.

Scanners that only have to know whether they stand inside a literal follow the line with a
`Position`: there an unclosed literal runs to the end of the line.
-/

namespace Phrasebook.Source

/-- The double quote and the single quote open literals. -/
def isQuote (c : Char) : Bool :=
  c == '"' || c == '\''

/-- The raw text up to the closing quote, and what follows that quote. -/
def closeLiteral (quote : Char) : Text → Option (Text × Text)
  | [] => none
  | c :: t =>
    if c = '\\' then
      match t with
      | [] => none
      | d :: t => (closeLiteral quote t).map fun (raw, rest) => (c :: d :: raw, rest)
    else if c = quote then some ([], t)
    else (closeLiteral quote t).map fun (raw, rest) => (c :: raw, rest)

/-- The raw text of the literal that opens a text, and what follows it. -/
def takeLiteral : Text → Option (Text × Text)
  | [] => none
  | c :: t => if isQuote c then closeLiteral c t else none

/-- A literal found in a line. -/
structure Literal where
  /-- What stands between the quotes, escapes included. -/
  raw : Text
  /-- The quote that opens and closes the literal. -/
  quote : Char
  /-- The position of the opening quote. -/
  start : Nat
  /-- The position after the closing quote. -/
  stop : Nat
  deriving DecidableEq, Repr

/-- The literal that opens at a position of a line. -/
def literalAt (line : Text) (start : Nat) : Option Literal :=
  match line.drop start with
  | [] => none
  | quote :: t =>
    if isQuote quote then
      (closeLiteral quote t).map fun (raw, _) => ⟨raw, quote, start, start + raw.length + 2⟩
    else none

/-- The position after the literal that opens at `start`; without one, the end of the line. -/
def skipLiteral (line : Text) (start : Nat) : Nat :=
  match literalAt line start with
  | some literal => literal.stop
  | none => line.length

/-- Where a scanner stands in a line. -/
inductive Position where
  /-- Outside literals. -/
  | code
  /-- In a literal with this quote. -/
  | quoted (quote : Char)
  /-- In a literal with this quote, after a backslash. -/
  | escaped (quote : Char)
  deriving DecidableEq, Repr

/-- Where a scanner stands after one more character. -/
def Position.step : Position → Char → Position
  | .code, c => if isQuote c then .quoted c else .code
  | .quoted quote, c =>
    if c = '\\' then .escaped quote else if c = quote then .code else .quoted quote
  | .escaped quote, _ => .quoted quote

end Phrasebook.Source
