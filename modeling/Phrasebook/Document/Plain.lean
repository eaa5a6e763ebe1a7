import Phrasebook.Document.Cursor

/-!
# Plain scalars

A plain scalar stands without quotes. It ends before a comment, before a colon with a gap behind
it, at the end of its block and, inside brackets, before a comma or a bracket. A line end in it is
folded into a space, and empty lines after that stay.
-/

namespace Phrasebook.Document

/-- The characters that have a meaning inside brackets. -/
def isFlowMark (c : Char) : Bool :=
  c == ',' || c == '[' || c == ']' || c == '{' || c == '}'

/-- Whether a place, given by the character there, may end the key before a colon. -/
def endsKey (inFlow : Bool) (next : Option Char) : Bool :=
  atGap next || inFlow && next.any isFlowMark

/-- The characters of a plain scalar up to a gap or to its end. -/
def plainWord (inFlow : Bool) : Text → Text
  | [] => []
  | c :: t =>
    if atGap (some c) || c == ':' && endsKey inFlow t.head? ||
        inFlow && (isFlowMark c || c == '?') then []
    else c :: plainWord inFlow t

/-- The line ends after the first one in a plain scalar, and the place behind them and the indent
of the next line. Nothing comes of it when a division of documents comes next. -/
def plainBreaks : Nat → Cursor → Option Text × Cursor
  | 0, c => (some [], c)
  | fuel + 1, c =>
    if c.atDivision then (none, c)
    else
      let c := c.skipSpaces
      match c.peek? with
      | some ch =>
        if isBreak ch then
          let (more, c) := plainBreaks fuel c.next
          (more.map (breakText ch ++ ·), c)
        else (some [], c)
      | none => (some [], c)

/-- The gap behind a word of a plain scalar. -/
structure PlainGap where
  /-- What the gap counts as when another word comes. -/
  text : Text
  /-- Whether the gap has a line end. -/
  isBroken : Bool
  /-- The place behind the gap. -/
  cursor : Cursor

/-- The gap that comes next in a plain scalar. -/
def plainGap (c : Cursor) : PlainGap :=
  let spaces := c.span (· == ' ')
  let c := c.skipSpaces
  match c.peek? with
  | some ch =>
    if isBreak ch then
      let (breaks, last) := plainBreaks c.rest.length c.next
      match breaks with
      | none => ⟨[], true, last⟩
      | some breaks =>
        let first := if breakText ch != ['\n'] then breakText ch
          else if breaks.isEmpty then [' '] else []
        ⟨first ++ breaks, true, last⟩
    else ⟨spaces, false, c⟩
  | none => ⟨spaces, false, c⟩

/-- A scalar that was read. -/
structure PlainScalar where
  /-- The text. -/
  text : Text
  /-- Whether a line end comes behind the last word. -/
  isBroken : Bool
  /-- The place behind the scalar. -/
  cursor : Cursor

/-- The words of a plain scalar, each with the gap before it. -/
def plainWords (inFlow : Bool) (indent : Nat) : Nat → PlainGap → PlainScalar
  | 0, gap => ⟨[], gap.isBroken, gap.cursor⟩
  | fuel + 1, gap =>
    let c := gap.cursor
    if c.peek? == some '#' then ⟨[], gap.isBroken, c⟩
    else
      let word := plainWord inFlow c.rest
      if word.isEmpty then ⟨[], gap.isBroken, c⟩
      else
        let next := plainGap (c.skip word.length)
        if next.text.isEmpty || next.cursor.peek? == some '#' ||
            !inFlow && next.cursor.column < indent then
          ⟨gap.text ++ word, next.isBroken, next.cursor⟩
        else
          let more := plainWords inFlow indent fuel next
          { more with text := gap.text ++ word ++ more.text }

/-- The plain scalar that comes next, in a block that is indented to a column. -/
def plainScalar (inFlow : Bool) (indent : Nat) (c : Cursor) : PlainScalar :=
  plainWords inFlow indent (c.rest.length + 1) ⟨[], false, c⟩

end Phrasebook.Document
