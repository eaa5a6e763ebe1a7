import Phrasebook.Text.Basic

/-!
# Decimal digits

The decimal digits of all scripts. Each script has its ten digits in a row, so a digit is known by
the zero before it. A run of digits is read as a number unless it is too long.
-/

namespace Phrasebook.Text

/-- The zeros of the scripts beyond ASCII, in increasing order. -/
def zeros : List Nat :=
  [0x660, 0x6F0, 0x7C0, 0x966, 0x9E6, 0xA66, 0xAE6, 0xB66, 0xBE6, 0xC66, 0xCE6, 0xD66, 0xDE6,
   0xE50, 0xED0, 0xF20, 0x1040, 0x1090, 0x17E0, 0x1810, 0x1946, 0x19D0, 0x1A80, 0x1A90, 0x1B50,
   0x1BB0, 0x1C40, 0x1C50, 0xA620, 0xA8D0, 0xA900, 0xA9D0, 0xA9F0, 0xAA50, 0xABF0, 0xFF10,
   0x104A0, 0x10D30, 0x11066, 0x110F0, 0x11136, 0x111D0, 0x112F0, 0x11450, 0x114D0, 0x11650,
   0x116C0, 0x11730, 0x118E0, 0x11950, 0x11C50, 0x11D50, 0x11DA0, 0x16A60, 0x16AC0, 0x16B50,
   0x1D7CE, 0x1D7D8, 0x1D7E2, 0x1D7EC, 0x1D7F6, 0x1E140, 0x1E2F0, 0x1E950, 0x1FBF0]

/-- The value of a decimal digit of any script. -/
def digitValue? (c : Char) : Option Nat :=
  let n := c.toNat
  if n < 0x80 then if 48 ≤ n && n ≤ 57 then some (n - 48) else none
  else (zeros.find? fun first => first ≤ n && n < first + 10).map (n - ·)

/-- Whether a character is a decimal digit of any script. -/
def isDigit (c : Char) : Bool :=
  (digitValue? c).isSome

/-- The number that a run of decimal digits writes, most significant digit first. -/
def digitsValue (digits : Text) : Nat :=
  digits.foldl (fun n c => 10 * n + (digitValue? c).getD 0) 0

/-- The greatest number of digits that are read as a number. -/
def digitLimit : Nat :=
  4300

/-- Whether a run of digits is too long to be read as a number. Zeros in front count. -/
def isOverlong (digits : Text) : Bool :=
  digitLimit < digits.length

/-- Why a run of digits is not read as a number. -/
structure DigitFault where
  /-- The number of its digits. -/
  count : Nat
  deriving DecidableEq, Repr

/-- The message about a run of digits that is too long. -/
def DigitFault.message (f : DigitFault) : Text :=
  "Exceeds the limit (".toList ++ ofNat digitLimit ++
    " digits) for integer string conversion: value has ".toList ++ ofNat f.count ++
    " digits; use sys.set_int_max_str_digits() to increase the limit".toList

/-- The number that a run of decimal digits writes, unless it is too long. -/
def number (digits : Text) : Except DigitFault Nat :=
  if isOverlong digits then .error ⟨digits.length⟩ else .ok (digitsValue digits)

end Phrasebook.Text
