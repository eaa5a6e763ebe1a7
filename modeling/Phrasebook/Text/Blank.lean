import Phrasebook.Text.Basic

/-!
# Blank characters

The white space of Unicode together with the four information separators. A text is blank when all
of its characters are.
-/

namespace Phrasebook.Text

/-- White space: controls U+0009 to U+000D and U+001C to U+001F, the space, and the wider spaces
and separators of Unicode. -/
def isBlank (c : Char) : Bool :=
  let n := c.toNat
  (0x9 ≤ n && n ≤ 0xD) || (0x1C ≤ n && n ≤ 0x20) || n == 0x85 || n == 0xA0 || n == 0x1680 ||
    (0x2000 ≤ n && n ≤ 0x200A) || n == 0x2028 || n == 0x2029 || n == 0x202F || n == 0x205F ||
    n == 0x3000

/-- Whether a text has no character that is not blank. -/
def isBlankText (t : Text) : Bool :=
  t.all isBlank

/-- The blank characters at the start of a text. -/
def indent (t : Text) : Text :=
  t.takeWhile isBlank

/-- A text without its indent. -/
def trimLeft (t : Text) : Text :=
  t.dropWhile isBlank

/-- The indent and what is left without it make up the text. -/
theorem indent_append_trimLeft (t : Text) : indent t ++ trimLeft t = t :=
  List.takeWhile_append_dropWhile

end Phrasebook.Text
