import Phrasebook.Text.Basic

/-!
# Lines

A text file ends each of its lines with a line feed, or with a carriage return and a line feed.
Reading accepts both; writing uses the one that the file had.
-/

namespace Phrasebook.Text

/-- How the lines of a file end. -/
inductive Newline where
  /-- A line feed. -/
  | lf
  /-- A carriage return and a line feed. -/
  | crlf
  deriving DecidableEq, Repr

/-- The characters that end a line. -/
def Newline.text : Newline → Text
  | .lf => ['\n']
  | .crlf => ['\r', '\n']

/-- The newline of a content is that of its first line; a content without one has line feeds. -/
def newlineOf : Text → Newline
  | [] => .lf
  | [_] => .lf
  | c :: d :: t => if c = '\n' then .lf else if c = '\r' && d = '\n' then .crlf else newlineOf (d :: t)

/-- A content with each carriage return that stands before a line feed left out. -/
def dropReturns : Text → Text
  | [] => []
  | [c] => [c]
  | c :: d :: t => if c = '\r' && d = '\n' then dropReturns (d :: t) else c :: dropReturns (d :: t)

/-- The lines of a content without their ends; the end of the last line opens no further line. -/
def lines (content : Text) : List Text :=
  let parts := pieces '\n' (dropReturns content)
  if parts.getLast? = some [] then parts.dropLast else parts

/-- Whether a character ends a line on a screen: line feeds, carriage returns, tabs and feeds down
the page, separators of files, groups and records, and the line and paragraph ends of Unicode. -/
def endsScreenLine (c : Char) : Bool :=
  let n := c.toNat
  (0xA ≤ n && n ≤ 0xD) || (0x1C ≤ n && n ≤ 0x1E) || n == 0x85 || n == 0x2028 || n == 0x2029

/-- The lines of a text on a screen; the end of the last line opens no further line. -/
def screenLines : Text → List Text
  | [] => []
  | [c] => if endsScreenLine c then [[]] else [[c]]
  | c :: d :: t =>
    if c = '\r' && d = '\n' then screenLines (d :: t)
    else if endsScreenLine c then [] :: screenLines (d :: t)
    else
      match screenLines (d :: t) with
      | [] => [[c]]
      | line :: rest => (c :: line) :: rest

/-- The content that has the given lines, each with the given end. -/
def joinLines (ls : List Text) (ending : Text) : Text :=
  ls.flatMap (· ++ ending)

end Phrasebook.Text
