import Phrasebook.Data.Value
import Phrasebook.Document.Token

/-!
# What plain scalars mean

The text of a plain scalar may stand for nothing, a truth value, a number, a date or a time. Any
other text stands for itself.
-/

namespace Phrasebook.Document

/-- What kind of value a scalar stands for. -/
inductive Meaning where
  | null
  | bool
  | int
  | double
  | text
  | time
  /-- The key whose value holds further entries of the map. -/
  | merge
  /-- The key of a default value. -/
  | default
  deriving DecidableEq, Repr

/-- The texts that stand for the truth. -/
def truths : List Text :=
  ["yes", "Yes", "YES", "true", "True", "TRUE", "on", "On", "ON"].map String.toList

/-- The texts that stand for the untruth. -/
def untruths : List Text :=
  ["no", "No", "NO", "false", "False", "FALSE", "off", "Off", "OFF"].map String.toList

/-- The texts that stand for nothing. -/
def nulls : List Text :=
  ["", "~", "null", "Null", "NULL"].map String.toList

/-- The texts that stand for an infinite number. -/
def infinities : List Text :=
  [".inf", ".Inf", ".INF"].map String.toList

/-- The texts that stand for no number. -/
def nans : List Text :=
  [".nan", ".NaN", ".NAN"].map String.toList

/-- Whether a text is nothing but digits of a kind and low lines, and not empty. -/
def isDigits (p : Char → Bool) (t : Text) : Bool :=
  !t.isEmpty && t.all fun c => p c || c == '_'

/-- Whether a text is a decimal digit with digits and low lines behind it. -/
def isDecimal (t : Text) : Bool :=
  t.head?.any Char.isDigit && isDigits Char.isDigit t

/-- A text without its sign, and whether the sign is a minus. -/
def unsigned : Text → Bool × Text
  | '-' :: t => (true, t)
  | '+' :: t => (false, t)
  | t => (false, t)

/-- Whether a text is a number below sixty of one or two digits. -/
def isSixtieth (t : Text) : Bool :=
  match t with
  | [c] => c.isDigit
  | [c, d] => '0' ≤ c && c ≤ '5' && d.isDigit
  | _ => false

/-- Whether a text without a sign writes an integer: in base 2, 8, 10 or 16, or with colons between
places of base 60. -/
def isInt (t : Text) : Bool :=
  match t with
  | '0' :: 'b' :: digits => isDigits (fun c => c == '0' || c == '1') digits
  | '0' :: 'x' :: digits =>
    isDigits (fun c => c.isDigit || 'a' ≤ c && c ≤ 'f' || 'A' ≤ c && c ≤ 'F') digits
  | ['0'] => true
  | '0' :: digits => isDigits (fun c => '0' ≤ c && c ≤ '7') digits
  | t =>
    match Text.pieces ':' t with
    | [] => false
    | first :: places => isDecimal first && places.all isSixtieth

/-- Whether a text is an exponent with a sign, or empty. -/
def isExponent (t : Text) : Bool :=
  match t with
  | [] => true
  | e :: s :: digits =>
    (e == 'e' || e == 'E') && (s == '-' || s == '+') && !digits.isEmpty &&
      digits.all Char.isDigit
  | _ => false

/-- A text up to its first full stop, and what comes behind, if it has one. -/
def splitPoint (t : Text) : Option (Text × Text) :=
  let whole := t.takeWhile (· != '.')
  match t.drop whole.length with
  | _ :: fraction => some (whole, fraction)
  | [] => none

/-- Whether a text without a sign writes a number with a full stop. -/
def isDouble (hasSign : Bool) (t : Text) : Bool :=
  if infinities.contains t then true
  else if !hasSign && nans.contains t then true
  else
    match splitPoint t with
    | none => false
    | some (whole, fraction) =>
      let digits := fraction.takeWhile fun c => c.isDigit || c == '_'
      let exponent := fraction.drop digits.length
      if whole.isEmpty then !hasSign && isDecimal digits && isExponent exponent
      else
        match Text.pieces ':' whole with
        | [] => false
        | [whole] => isDecimal whole && isExponent exponent
        | first :: places => isDecimal first && places.all isSixtieth && exponent.isEmpty

/-- The number that a run of ASCII digits writes in a base. -/
def numberIn (base : Nat) (digits : Text) : Nat :=
  let value (c : Char) : Nat :=
    if c ≤ '9' then c.toNat - 48 else if 'a' ≤ c then c.toNat - 87 else c.toNat - 55
  digits.foldl (fun n c => base * n + value c) 0

/-- The integer that a text without a sign writes. Low lines between digits do not count. -/
def natural (t : Text) : Except Fault Nat :=
  match t.filter (· != '_') with
  | ['0', 'b'] => .error (.noDigits 2)
  | ['0', 'x'] => .error (.noDigits 16)
  | '0' :: 'b' :: digits => .ok (numberIn 2 digits)
  | '0' :: 'x' :: digits => .ok (numberIn 16 digits)
  | '0' :: digits => .ok (numberIn 8 digits)
  | t => do
    let places ← (Text.pieces ':' t).mapM fun place => (Text.number place).mapError .digits
    return places.foldl (fun n place => 60 * n + place) 0

/-- The integer that a text writes. -/
def integer (t : Text) : Except Fault Int := do
  let (negative, t) := unsigned t
  let n ← natural t
  return if negative then -(n : Int) else n

/-- The double that digits with a full stop and an exponent among them write. -/
def decimal (negative : Bool) (t : Text) : Double :=
  let mantissa := t.takeWhile fun c => c.isDigit || c == '.'
  let (exponentNegative, digits) := unsigned (t.drop (mantissa.length + 1))
  let exponent : Int :=
    if exponentNegative then -(numberIn 10 digits : Int) else numberIn 10 digits
  let places := (mantissa.dropWhile (· != '.')).length - 1
  Double.ofDecimal negative (numberIn 10 (mantissa.filter (· != '.'))) (exponent - places)

/-- A double with its sign turned. -/
def turned (negative : Bool) (d : Double) : Double :=
  match d with
  | .finite s m e => .finite (s != negative) m e
  | .infinite s => .infinite (s != negative)
  | .nan => .nan

/-- The double whose places of base 60 are given, the last one first. -/
def sixties (places : List Text) : Double :=
  (places.foldl
    (fun (sum : Double × Nat) place =>
      (sum.1.add ((decimal false place).mulNat sum.2), 60 * sum.2))
    (.finite false 0 0, 1)).1

/-- The double that a text writes. -/
def double (t : Text) : Double :=
  let (negative, t) := unsigned (t.filter (· != '_'))
  if infinities.contains t then .infinite negative
  else if nans.contains t then .nan
  else if t.contains ':' then turned negative (sixties (Text.pieces ':' t).reverse)
  else decimal negative t

/-- Digits of a date or time: so many at least and so many at most, and what comes behind. -/
def digitsOf? (least most : Nat) (t : Text) : Option (Nat × Text) :=
  let digits := (t.take most).takeWhile Char.isDigit
  if digits.length < least then none else some (numberIn 10 digits, t.drop digits.length)

/-- What comes behind a character. -/
def behind? (c : Char) (t : Text) : Option Text :=
  match t with
  | [] => none
  | d :: t => if c == d then some t else none

/-- A date that is written with so many digits at least for month and day, and what comes behind.
Whether the date exists is not looked at. -/
def dateOf? (least : Nat) (t : Text) : Option (Date × Text) := do
  let (year, t) ← digitsOf? 4 4 t
  let (month, t) ← digitsOf? least 2 (← behind? '-' t)
  let (day, t) ← digitsOf? least 2 (← behind? '-' t)
  return (⟨year, month, day⟩, t)

/-- Whether a character is a space or a tab. -/
def isGap (c : Char) : Bool :=
  c == ' ' || c == '\t'

/-- What comes behind the mark between a date and a time. -/
def behindDate? (t : Text) : Option Text :=
  match t with
  | 'T' :: t => some t
  | 't' :: t => some t
  | c :: t => if isGap c then some (t.dropWhile isGap) else none
  | [] => none

/-- The millionths of a second, if they are written, and what comes behind. -/
def microsOf (t : Text) : Nat × Text :=
  match t with
  | '.' :: t =>
    let digits := t.takeWhile Char.isDigit
    (numberIn 10 (digits.take 6 ++ List.replicate (6 - digits.length) '0'), t.drop digits.length)
  | t => (0, t)

/-- How many minutes a time is ahead of the universal time, if that is written up to the end. -/
def offsetOf? (t : Text) : Option (Option Int) :=
  match t.dropWhile isGap with
  | [] => if t.isEmpty then some none else none
  | ['Z'] => some (some 0)
  | sign :: t => do
    if sign != '-' && sign != '+' then failure
    let (hours, t) ← digitsOf? 1 2 t
    let minutes ←
      if t.isEmpty then some 0
      else
        match digitsOf? 2 2 (← behind? ':' t) with
        | some (minutes, []) => some minutes
        | _ => none
    let total : Int := (60 * hours + minutes : Nat)
    return some (if sign == '-' then -total else total)

/-- The date and time that a text writes, whether or not they exist. -/
def momentOf? (t : Text) : Option Moment := do
  let (date, t) ← dateOf? 1 t
  let (hour, t) ← digitsOf? 1 2 (← behindDate? t)
  let (minute, t) ← digitsOf? 2 2 (← behind? ':' t)
  let (second, t) ← digitsOf? 2 2 (← behind? ':' t)
  let (micros, t) := microsOf t
  return ⟨date, hour, minute, second, micros, ← offsetOf? t⟩

/-- The date that a text writes, whether or not it exists. -/
def dayOf? (t : Text) : Option Date :=
  match dateOf? 2 t with
  | some (date, []) => some date
  | _ => none

/-- Whether a year has a day more in February. -/
def isLeap (year : Nat) : Bool :=
  year % 4 == 0 && (year % 100 != 0 || year % 400 == 0)

/-- The number of days of a month. -/
def daysIn (year month : Nat) : Nat :=
  if month == 2 then if isLeap year then 29 else 28
  else if month == 4 || month == 6 || month == 9 || month == 11 then 30
  else 31

/-- A date, if it exists. -/
def checkDate (d : Date) : Except Fault Date :=
  if d.year == 0 then .error (.year d.year)
  else if d.month == 0 || d.month > 12 then .error .month
  else if d.day == 0 || d.day > daysIn d.year d.month then .error .day
  else .ok d

/-- A date with a time, if it exists. -/
def checkMoment (m : Moment) : Except Fault Moment :=
  match m.offset.filter (·.natAbs ≥ 24 * 60) with
  | some offset => .error (.offset offset)
  | none => do
    let _ ← checkDate m.date
    if m.hour > 23 then .error .hour
    else if m.minute > 59 then .error .minute
    else if m.second > 59 then .error .second
    else .ok m

/-- What a plain text stands for. -/
def meaningOf (t : Text) : Meaning :=
  let hasSign := t.head? == some '-' || t.head? == some '+'
  let digits := (unsigned t).2
  if truths.contains t || untruths.contains t then .bool
  else if isDouble hasSign digits then .double
  else if isInt digits then .int
  else if t == "<<".toList then .merge
  else if nulls.contains t then .null
  else if (dayOf? t).isSome || (momentOf? t).isSome then .time
  else if t == "=".toList then .default
  else .text

/-- The value that a text has as a meaning. -/
def valueOf (meaning : Meaning) (t : Text) : Except Fault Value :=
  match meaning with
  | .null => .ok .null
  | .bool => .ok (.bool (truths.contains t))
  | .int => return .int (← integer t)
  | .double => .ok (.double (double t))
  | .text => .ok (.text t)
  | .time =>
    match dayOf? t, momentOf? t with
    | some date, _ => return .date (← checkDate date)
    | none, some moment => return .moment (← checkMoment moment)
    | none, none => .error .malformed
  | .merge => .error .malformed
  | .default => .error .malformed

end Phrasebook.Document
