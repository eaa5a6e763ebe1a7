import Phrasebook.Data.Date
import Phrasebook.Text.Digit

/-!
# Tokens of a document

A document is read as a row of tokens. The indentation of blocks has become tokens as well: each
block list and block map has a start and an end.
-/

namespace Phrasebook.Document

/-- Why a document has no value. -/
inductive Fault where
  /-- The text does not follow the format. -/
  | malformed
  /-- A date has a month that does not exist. -/
  | month
  /-- A date has a day that its month does not have. -/
  | day
  /-- A date has no year. -/
  | year (written : Nat)
  /-- A time has an hour that does not exist. -/
  | hour
  /-- A time has a minute that does not exist. -/
  | minute
  /-- A time has a second that does not exist. -/
  | second
  /-- A time is more than a day off the universal time. -/
  | offset (minutes : Int)
  /-- A number of the given base has no digits. -/
  | noDigits (base : Nat)
  /-- A number has too many digits. -/
  | digits (f : Text.DigitFault)
  /-- An escape sequence names no character. -/
  | character
  deriving DecidableEq, Repr

/-- The message about a fault. A text that does not follow the format is only called malformed. -/
def Fault.message : Fault → Text
  | .malformed => "malformed document".toList
  | .month => "month must be in 1..12".toList
  | .day => "day is out of range for month".toList
  | .year written => "year ".toList ++ Text.ofNat written ++ " is out of range".toList
  | .hour => "hour must be in 0..23".toList
  | .minute => "minute must be in 0..59".toList
  | .second => "second must be in 0..59".toList
  | .offset minutes =>
    "offset must be a timedelta strictly between ".toList ++
      "-timedelta(hours=24) and timedelta(hours=24), not ".toList ++ spanText minutes ++ ".".toList
  | .noDigits base =>
    "invalid literal for int() with base ".toList ++ Text.ofNat base ++ ": ''".toList
  | .digits f => f.message
  | .character => "chr() arg not in range(0x110000)".toList

/-- How a scalar is written. -/
inductive Style where
  /-- Without quotes, so that its text may stand for another value. -/
  | plain
  /-- In quotes or as a block of lines. -/
  | quoted
  deriving DecidableEq, Repr

/-- A token. -/
inductive Token where
  /-- A directive that declares the version of the format. -/
  | version (major : Nat)
  /-- A directive that gives a short form for tags. -/
  | shorthand (handle tagStart : Text)
  /-- Another directive. -/
  | directive
  /-- The mark before a document. -/
  | documentStart
  /-- The mark behind a document. -/
  | documentEnd
  /-- The start of a list in block form. -/
  | blockList
  /-- The start of a map in block form. -/
  | blockMap
  /-- The end of a list or map in block form. -/
  | blockEnd
  /-- The bracket before a list. -/
  | listOpen
  /-- The bracket behind a list. -/
  | listClose
  /-- The brace before a map. -/
  | mapOpen
  /-- The brace behind a map. -/
  | mapClose
  /-- The comma between items. -/
  | comma
  /-- The hyphen before an item of a block list. -/
  | item
  /-- What comes next is a key. -/
  | key
  /-- What comes next is the value of a key. -/
  | value
  /-- A reference to a named node. -/
  | alias (name : Text)
  /-- A name for the node that comes next. -/
  | anchor (name : Text)
  /-- A tag for the node that comes next, with the handle of its short form. -/
  | tag (handle : Option Text) (suffix : Text)
  /-- A scalar. -/
  | scalar (style : Style) (text : Text)
  deriving DecidableEq, Repr

end Phrasebook.Document
