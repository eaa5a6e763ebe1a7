import Phrasebook.Document.Cursor
import Phrasebook.Document.Token

/-!
# Block scalars

A block scalar is the indented lines below a header. The header says whether lines are folded, how
far they are indented when that cannot be seen from the first one, and which of the line ends at
the end belong to the scalar.
-/

namespace Phrasebook.Document

/-- Which line ends at the end of a block scalar belong to it. -/
inductive Chomping where
  /-- None. -/
  | strip
  /-- The first one. -/
  | clip
  /-- All. -/
  | keep
  deriving DecidableEq, Repr

/-- What the header of a block scalar says. -/
structure BlockHeader where
  /-- Which line ends at the end belong to it. -/
  chomping : Chomping
  /-- How much further than the block around it the scalar is indented. -/
  increment : Option Nat
  /-- The place behind the header. -/
  cursor : Cursor

/-- The sign of a header that comes next. -/
def chompingSign? (c : Cursor) : Option Chomping :=
  match c.peek? with
  | some '+' => some .keep
  | some '-' => some .strip
  | _ => none

/-- The digit of a header that comes next. -/
def incrementDigit? (c : Cursor) : Option Nat :=
  c.peek?.bind fun ch => if '0' ≤ ch && ch ≤ '9' then some (ch.toNat - 48) else none

/-- The signs of a header, which come in either order. -/
def headerSigns (c : Cursor) : BlockHeader :=
  match chompingSign? c, incrementDigit? c with
  | some chomping, _ =>
    match incrementDigit? c.next with
    | some n => ⟨chomping, some n, c.next.next⟩
    | none => ⟨chomping, none, c.next⟩
  | none, some n =>
    match chompingSign? c.next with
    | some chomping => ⟨chomping, some n, c.next.next⟩
    | none => ⟨.clip, some n, c.next⟩
  | none, none => ⟨.clip, none, c⟩

/-- The end of a line that has nothing but a comment left. -/
def emptyLineEnd (c : Cursor) : Except Fault Cursor :=
  let last := c.skipSpaces.skipComment
  if atLineEnd last.peek? then .ok last.next else .error .malformed

/-- The header that comes next, with its line. -/
def blockHeader (c : Cursor) : Except Fault BlockHeader :=
  let header := headerSigns c
  if header.increment == some 0 || !atSpace header.cursor.peek? then .error .malformed
  else do
    let last ← emptyLineEnd header.cursor
    return { header with cursor := last }

/-- The line ends before the first line of a scalar, and the furthest indent on the way. -/
def leadingBreaks : Nat → Cursor → Nat → Text × Nat × Cursor
  | 0, c, furthest => ([], furthest, c)
  | fuel + 1, c, furthest =>
    let c := c.skipSpaces
    let furthest := max furthest c.column
    match c.peek? with
    | some ch =>
      if isBreak ch then
        let (more, rest) := leadingBreaks fuel c.next furthest
        (breakText ch ++ more, rest)
      else ([], furthest, c)
    | none => ([], furthest, c)

/-- The line ends that come next, and the place behind them and the indent of the next line. -/
def blockBreaks (indent : Nat) : Nat → Cursor → Text × Cursor
  | 0, c => ([], c)
  | fuel + 1, c =>
    let c := c.skipIndent indent
    match c.peek? with
    | some ch =>
      if isBreak ch then
        let (more, last) := blockBreaks indent fuel c.next
        (breakText ch ++ more, last)
      else ([], c)
    | none => ([], c)

/-- Whether a line of a folded scalar keeps its line ends, as it is indented further. -/
def isSpaced (c : Cursor) : Bool :=
  c.peek? == some ' ' || c.peek? == some '\t'

/-- The lines of a block scalar from one on, with the line ends before it, and the place behind. -/
def blockLines (isFolded : Bool) (chomping : Chomping) (indent : Nat) :
    Nat → Text → Text → Cursor → Text × Cursor
  | 0, _, _, c => ([], c)
  | fuel + 1, lastBreak, breaks, c =>
    if c.column == indent && c.peek?.isSome then
      let line := c.span fun ch => !isBreak ch
      let behind := c.skip line.length
      let lineBreak := (behind.peek?.map breakText).getD []
      let (more, next) := blockBreaks indent behind.next.rest.length.succ behind.next
      let goesOn := next.column == indent && next.peek?.isSome
      let joint :=
        if !goesOn then []
        else if isFolded && lineBreak == ['\n'] && !isSpaced c && !isSpaced next then
          if more.isEmpty then [' '] else []
        else lineBreak
      let (rest, last) := blockLines isFolded chomping indent fuel lineBreak more next
      (breaks ++ line ++ joint ++ rest, last)
    else
      match chomping with
      | .strip => ([], c)
      | .clip => (lastBreak, c)
      | .keep => (lastBreak ++ breaks, c)

/-- The block scalar that starts at a place with its sign, in a block that is indented to a column,
and the place behind it. The column is one more than that of the block, and none outside blocks. -/
def blockScalar (isFolded : Bool) (blockIndent : Nat) (c : Cursor) :
    Except Fault (Text × Cursor) := do
  let header ← blockHeader c.next
  let least := max blockIndent 1
  let fuel := c.rest.length + 1
  match header.increment with
  | none =>
    let (breaks, furthest, first) := leadingBreaks fuel header.cursor 0
    return blockLines isFolded header.chomping (max least furthest) fuel [] breaks first
  | some n =>
    let indent := least + n - 1
    let (breaks, first) := blockBreaks indent fuel header.cursor
    return blockLines isFolded header.chomping indent fuel [] breaks first

end Phrasebook.Document
