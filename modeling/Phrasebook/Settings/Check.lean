import Phrasebook.Settings.Problem
import Phrasebook.Journal
import Phrasebook.Text.Blank
import Phrasebook.Text.Digit

/-!
# Checking single values

A value of a settings file need not have the kind that its field has: texts may stand for numbers
and truth values, and numbers for each other, where nothing is lost by it.
-/

namespace Phrasebook.Readers

/-- A text. -/
def text : Value → Except ProblemKind Text
  | .text t => .ok t
  | _ => .error .notText

/-- A text or nothing. -/
def text? : Value → Except ProblemKind (Option Text)
  | .null => .ok none
  | v => some <$> text v

/-- A text that is not empty. -/
def filledText (v : Value) : Except ProblemKind Text := do
  let t ← text v
  if t.isEmpty then .error .empty else return t

/-- The texts of a list from a number on. Each item that is no text is a problem at its number. -/
def textsFrom : Nat → List Value → Checked (List Text)
  | _, [] => .valid []
  | i, v :: vs =>
    .both List.cons (.below (Text.ofNat i) (.ofExcept (text v))) (textsFrom (i + 1) vs)

/-- A list of texts. -/
def texts : Value → Checked (List Text)
  | .list items => textsFrom 0 items
  | _ => .ofExcept (.error .notList)

/-- White space, without the information separators. -/
def isSpace (c : Char) : Bool :=
  Text.isBlank c && !('\x1C' ≤ c && c ≤ '\x1F')

/-- A text without white space at its ends. -/
def strip (t : Text) : Text :=
  ((t.dropWhile isSpace).reverse.dropWhile isSpace).reverse

/-- A text without its sign, and whether the sign is a minus. -/
def unsigned : Text → Bool × Text
  | '-' :: t => (true, t)
  | '+' :: t => (false, t)
  | t => (false, t)

/-- A text without low lines, if each of them stands between other characters. -/
def dropLowLines? (t : Text) : Option Text :=
  let parts := Text.pieces '_' t
  if parts.any List.isEmpty then none else some parts.flatten

/-- The digits of an integer, before a full stop with nothing but zeros behind it. -/
def dropZeroPlaces (t : Text) : Text :=
  let whole := t.takeWhile (· != '.')
  if (t.drop (whole.length + 1)).all (· == '0') then whole else t

/-- The integer that a text writes. -/
def intOfText? (t : Text) : Option Int := do
  let (negative, digits) := unsigned (dropZeroPlaces (strip t))
  let digits ← dropLowLines? digits
  if !digits.all Char.isDigit then failure
  let n := Text.digitsValue digits
  return if negative then -(n : Int) else n

/-- An integer. A double that is not whole, or that is too great for an integer of 64 bits, is a
problem of its own. -/
def int : Value → Except ProblemKind Int
  | .int i => .ok i
  | .bool b => .ok (if b then 1 else 0)
  | .double (.finite negative mantissa exponent) =>
    match Double.toInt? (.finite negative mantissa exponent) with
    | none => .error .fractional
    | some i => if i.natAbs < 1 <<< 63 then .ok i else .error .tooLong
  | .double _ => .error .notFinite
  | .text t =>
    match intOfText? t with
    | none => .error .notIntText
    | some i => if t.length ≤ 4300 then .ok i else .error .tooLong
  | _ => .error .notInt

/-- An integer between two bounds. -/
def intBetween (least most : Nat) (v : Value) : Except ProblemKind Int := do
  let i ← int v
  if i > most then .error (.above most)
  else if i < least then .error (.below least)
  else return i

/-- The exponent that the end of a number writes: nothing, or digits behind an `e`. -/
def exponentOfText? : Text → Option Int
  | [] => some 0
  | e :: t =>
    let (negative, digits) := unsigned t
    if (e == 'e' || e == 'E') && !digits.isEmpty && digits.all Char.isDigit then
      let n := Text.digitsValue digits
      some (if negative then -(n : Int) else n)
    else none

/-- The double that a text writes: infinite or no number under their names, else a decimal with
digits on one side of the full stop at least. -/
def plainDouble? (t : Text) : Option Double :=
  let (negative, t) := unsigned t
  let name := Text.lowerAscii t
  if name == "inf".toList || name == "infinity".toList then some (.infinite negative)
  else if name == "nan".toList then some .nan
  else
    let whole := t.takeWhile Char.isDigit
    let behind := t.drop whole.length
    let fraction := if behind.head? == some '.' then behind.tail.takeWhile Char.isDigit else []
    let behind := if behind.head? == some '.' then behind.drop (fraction.length + 1) else behind
    if whole.isEmpty && fraction.isEmpty then none
    else
      (exponentOfText? behind).map fun exponent =>
        let digits := Text.digitsValue (whole ++ fraction)
        Double.ofDecimal negative digits (exponent - fraction.length)

/-- The double that a text writes, with white space around it or with low lines in it. -/
def doubleOfText? (t : Text) : Option Double :=
  match plainDouble? (strip t) with
  | some d => some d
  | none => if t.contains '_' then (dropLowLines? t).bind plainDouble? else none

/-- A double. -/
def double : Value → Except ProblemKind Double
  | .double d => .ok d
  | .int i => .ok (Double.ofInt i)
  | .bool b => .ok (Double.ofInt (if b then 1 else 0))
  | .text t =>
    match doubleOfText? t with
    | some d => .ok d
    | none => .error .notNumberText
  | _ => .error .notNumber

/-- A double that is at least zero and at most a bound. What is no number is compared to nothing. -/
def doubleUpTo (most : Nat) (v : Value) : Except ProblemKind Double := do
  let d ← double v
  if d.gtNat most then .error (.above most)
  else if d.ltNat 0 then .error (.below 0)
  else return d

/-- Whether a double is zero or less. -/
def isAtMostZero (d : Double) : Bool :=
  match d with
  | .finite negative mantissa _ => negative || mantissa == 0
  | .infinite negative => negative
  | .nan => false

/-- A double that is greater than zero and at most a bound. -/
def positiveUpTo (most : Nat) (v : Value) : Except ProblemKind Double := do
  let d ← double v
  if d.gtNat most then .error (.above most)
  else if isAtMostZero d then .error (.notAbove 0)
  else return d

/-- The texts that stand for the truth, in lower case. -/
def truths : List Text :=
  ["1", "true", "t", "yes", "y", "on"].map String.toList

/-- The texts that stand for the untruth, in lower case. -/
def untruths : List Text :=
  ["0", "false", "f", "no", "n", "off"].map String.toList

/-- A truth value that a number stands for. -/
def truthOfInt (i : Int) : Except ProblemKind Bool :=
  if i = 0 then .ok false else if i = 1 then .ok true else .error .notTruthText

/-- A truth value. -/
def truth : Value → Except ProblemKind Bool
  | .bool b => .ok b
  | .int i => truthOfInt i
  | .double d =>
    match d.toInt? with
    | some i => truthOfInt i
    | none => .error .notTruth
  | .text t =>
    let word := Text.lowerAscii t
    if truths.contains word then .ok true
    else if untruths.contains word then .ok false
    else .error .notTruthText
  | _ => .error .notTruth

/-- The capital letter of a character, as far as the names of levels are concerned: besides the
ASCII letters, the dotless i and the long s have one that is an ASCII letter. -/
def capital (c : Char) : Char :=
  if c = 'ı' then 'I' else if c = 'ſ' then 'S' else c.toUpper

/-- The level with a name, in whatever case. -/
def level : Value → Except ProblemKind Level
  | .text t =>
    match Level.ofName? (t.map capital) with
    | some l => .ok l
    | none => .error .notLevel
  | _ => .error .notLevel

/-- Whether a character may stand in a name. -/
def isNameChar (c : Char) : Bool :=
  c.isAlphanum || c == '_'

/-- Whether a text is a name: letters, digits and low lines, and no digit first. -/
def isName (t : Text) : Bool :=
  t.head?.any (fun c => c.isAlpha || c == '_') && t.all isNameChar

/-- A name. A line feed may stand behind it. -/
def name (v : Value) : Except ProblemKind Text := do
  let t ← filledText v
  if isName (if t.getLast? = some '\n' then t.dropLast else t) then return t
  else .error (.notName t)

/-- The start of an address of the web. -/
def isAddress (t : Text) : Bool :=
  t.startsWith ("http:".toList ++ "//".toList) || t.startsWith ("https:".toList ++ "//".toList)

/-- An address of the web, without slashes at its end. -/
def address (v : Value) : Except ProblemKind Text := do
  let t ← text v
  if isAddress t then return (t.reverse.dropWhile (· == '/')).reverse
  else .error .notAddress

end Phrasebook.Readers
