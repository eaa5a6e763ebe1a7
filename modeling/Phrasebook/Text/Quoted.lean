import Phrasebook.Text.Basic
import Phrasebook.Text.PrintableTable
import Phrasebook.Text.Ranges

/-!
# Quoted form

A text written between quotes so that it can be read on one line: the quote that occurs in the
text and the backslash are escaped, and so is every character without a printed form.
-/

namespace Phrasebook.Text

/-- Whether a character has a printed form. -/
def isPrintable (c : Char) : Bool :=
  if c.toNat < 0x80 then 32 ≤ c.toNat && c.toNat < 127
  else !inRanges unprintableRanges c.toNat

/-- A number in `width` lower-case hexadecimal digits. -/
def hex (width n : Nat) : Text :=
  let digits := Nat.toDigits 16 n
  List.replicate (width - digits.length) '0' ++ digits

/-- A character as it stands between the given quotes: tab, line feed and carriage return have
names, other characters without a printed form are written by their code point. -/
def quotedChar (quote c : Char) : Text :=
  if c = quote || c = '\\' then ['\\', c]
  else if c = '\t' then ['\\', 't']
  else if c = '\n' then ['\\', 'n']
  else if c = '\r' then ['\\', 'r']
  else if isPrintable c then [c]
  else if c.toNat < 0x100 then '\\' :: 'x' :: hex 2 c.toNat
  else if c.toNat < 0x10000 then '\\' :: 'u' :: hex 4 c.toNat
  else '\\' :: 'U' :: hex 8 c.toNat

/-- The single quote, unless the text has single quotes and no double quote. -/
def quoteFor (t : Text) : Char :=
  if t.contains '\'' && !t.contains '"' then '"' else '\''

/-- The quoted form of a text. -/
def quoted (t : Text) : Text :=
  let quote := quoteFor t
  quote :: t.flatMap (quotedChar quote) ++ [quote]

/-- A list of texts in quoted form, between brackets. -/
def quotedList (ts : List Text) : Text :=
  '[' :: join ", ".toList (ts.map quoted) ++ [']']

end Phrasebook.Text
