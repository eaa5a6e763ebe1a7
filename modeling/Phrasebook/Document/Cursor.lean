import Phrasebook.Text.Basic

/-!
# Places in a document

A cursor is a place in the text of a document: what is left of the text, and the line and column
reached. Columns count characters and decide the indentation of blocks.
-/

namespace Phrasebook.Document

/-- A place in a text. -/
structure Cursor where
  /-- What is left of the text. -/
  rest : Text
  /-- The number of characters passed. -/
  index : Nat
  /-- The number of line ends passed. -/
  line : Nat
  /-- The number of characters passed in the line. -/
  column : Nat
  deriving Repr

/-- Whether a character ends a line. -/
def isBreak (c : Char) : Bool :=
  c == '\n' || c == '\u0085' || c == '\u2028' || c == '\u2029'

/-- The text that a line end counts as. -/
def breakText (c : Char) : Text :=
  if c == '\u2028' || c == '\u2029' then [c] else ['\n']

/-- Whether a place, given by the character there, ends a line or the document. -/
def atLineEnd : Option Char → Bool
  | none => true
  | some c => isBreak c

/-- Whether a place ends a line, or a word before a space. -/
def atSpace : Option Char → Bool
  | none => true
  | some c => c == ' ' || isBreak c

/-- Whether a place ends a word. -/
def atGap : Option Char → Bool
  | none => true
  | some c => c == ' ' || c == '\t' || isBreak c

namespace Cursor

/-- The start of a text. -/
def start (t : Text) : Cursor :=
  ⟨t, 0, 0, 0⟩

/-- The character at a place. -/
def peek? (c : Cursor) : Option Char :=
  c.rest.head?

/-- The character some places further. -/
def ahead? (c : Cursor) (n : Nat) : Option Char :=
  c.rest[n]?

/-- The place behind the next character. -/
def next (c : Cursor) : Cursor :=
  match c.rest with
  | [] => c
  | ch :: rest =>
    if isBreak ch then ⟨rest, c.index + 1, c.line + 1, 0⟩
    else ⟨rest, c.index + 1, c.line, if ch == '\uFEFF' then c.column else c.column + 1⟩

/-- The place behind some characters. -/
def skip : Nat → Cursor → Cursor
  | 0, c => c
  | n + 1, c => skip n c.next

/-- The characters with a property that come next. -/
def span (p : Char → Bool) (c : Cursor) : Text :=
  c.rest.takeWhile p

/-- The place behind the characters with a property that come next. -/
def skipWhile (p : Char → Bool) (c : Cursor) : Cursor :=
  c.skip (c.span p).length

/-- The place behind the spaces that come next. -/
def skipSpaces (c : Cursor) : Cursor :=
  c.skipWhile (· == ' ')

/-- The place behind the spaces that come next, up to a column. -/
def skipIndent (column : Nat) (c : Cursor) : Cursor :=
  c.skip (min (c.span (· == ' ')).length (column - c.column))

/-- The end of the line. -/
def lineEnd (c : Cursor) : Cursor :=
  c.skipWhile fun ch => !isBreak ch

/-- The place behind a comment, if one comes next. -/
def skipComment (c : Cursor) : Cursor :=
  if c.peek? == some '#' then c.lineEnd else c

/-- Whether three hyphens or three full stops with a gap behind them come next. -/
def atMarker (c : Cursor) (mark : Char) : Bool :=
  c.rest.take 3 == [mark, mark, mark] && atGap (c.ahead? 3)

/-- Whether a mark between documents comes next. -/
def atDivision (c : Cursor) : Bool :=
  c.atMarker '-' || c.atMarker '.'

end Cursor

end Phrasebook.Document
