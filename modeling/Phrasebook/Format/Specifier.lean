import Phrasebook.Text.Digit

/-!
# Format specifiers

A specifier is a percent sign, an index with a dollar sign, flags, a width, a precision after a
point, and a conversion; all but the sign and the conversion may be missing. A space is no flag.
Each part takes as many characters as it can, and a percent sign that starts no specifier is plain
text.

Specifiers with an index have that position, a doubled percent sign has position 0, and the others
are numbered from 1 in order of appearance. Index, width and precision are read from left to right,
and the first one with too many digits leaves the text without specifiers.
-/

namespace Phrasebook.Format

/-- What kind of argument a specifier takes. -/
inductive Kind where
  | string
  | integer
  | float
  | character
  | unsigned
  | hexadecimal
  | octal
  | exponential
  | general
  /-- A doubled percent sign takes no argument. -/
  | percent
  deriving DecidableEq, Repr

/-- The name under which a kind is reported. -/
def Kind.name : Kind → Text
  | .string => "string".toList
  | .integer => "integer".toList
  | .float => "float".toList
  | .character => "character".toList
  | .unsigned => "unsigned".toList
  | .hexadecimal => "hexadecimal".toList
  | .octal => "octal".toList
  | .exponential => "exponential".toList
  | .general => "general".toList
  | .percent => "percent".toList

/-- The kind that a conversion character asks for. -/
def kindOf? (c : Char) : Option Kind :=
  if c = 's' || c = 'a' || c = 'A' then some .string
  else if c = 'd' || c = 'i' then some .integer
  else if c = 'f' then some .float
  else if c = 'c' then some .character
  else if c = 'u' then some .unsigned
  else if c = 'x' || c = 'X' then some .hexadecimal
  else if c = 'o' then some .octal
  else if c = 'e' || c = 'E' then some .exponential
  else if c = 'g' || c = 'G' then some .general
  else if c = '%' then some .percent
  else none

/-- The characters that may stand as flags. -/
def isFlag (c : Char) : Bool :=
  c == '+' || c == '-' || c == '0' || c == '#'

/-- The parts of a specifier as they are written. -/
structure Word where
  /-- The digits before the dollar sign, if there is one. -/
  index : Option Text
  /-- The flags. -/
  flags : Text
  /-- The digits of the width; none when there is no width. -/
  width : Text
  /-- The digits after the point, if there is one. -/
  precision : Option Text
  /-- The conversion character. -/
  conversion : Char
  /-- The kind that the conversion asks for. -/
  kind : Kind
  deriving DecidableEq, Repr

/-- A specifier without its percent sign. -/
def Word.body (w : Word) : Text :=
  (match w.index with
    | some digits => digits ++ ['$']
    | none => []) ++ w.flags ++ w.width ++
    (match w.precision with
      | some digits => '.' :: digits
      | none => []) ++ [w.conversion]

/-- A specifier as it is written. -/
def Word.text (w : Word) : Text :=
  '%' :: w.body

/-- The digits before a dollar sign at the front of a text, and what follows the sign. -/
def takeIndex (t : Text) : Option Text × Text :=
  let digits := t.takeWhile Text.isDigit
  match digits, t.drop digits.length with
  | _ :: _, '$' :: rest => (some digits, rest)
  | _, _ => (none, t)

/-- The digits after a point at the front of a text, and what follows them. -/
def takePrecision (t : Text) : Option Text × Text :=
  match t with
  | '.' :: rest =>
    match rest.takeWhile Text.isDigit with
    | [] => (none, t)
    | digits => (some digits, rest.dropWhile Text.isDigit)
  | _ => (none, t)

/-- The specifier whose percent sign stands just before a text. -/
def word? (t : Text) : Option Word :=
  let (index, t) := takeIndex t
  let flags := t.takeWhile isFlag
  let t := t.dropWhile isFlag
  let width := t.takeWhile Text.isDigit
  let (precision, t) := takePrecision (t.dropWhile Text.isDigit)
  match t with
  | [] => none
  | c :: _ => (kindOf? c).map fun kind => ⟨index, flags, width, precision, c, kind⟩

/-- The specifiers of a text from left to right, after `skip` characters that belong to the one
before. -/
def wordsFrom : Nat → Text → List Word
  | _, [] => []
  | skip + 1, _ :: t => wordsFrom skip t
  | 0, c :: t =>
    if c = '%' then
      match word? t with
      | some w => w :: wordsFrom w.body.length t
      | none => wordsFrom 0 t
    else wordsFrom 0 t

/-- The specifiers of a text, none of which overlap. -/
def words (t : Text) : List Word :=
  wordsFrom 0 t

/-- A specifier together with the argument that it takes. -/
structure Specifier where
  /-- The number of the argument, from 1; a doubled percent sign has 0. -/
  position : Nat
  /-- The kind of the argument. -/
  kind : Kind
  /-- The specifier as it is written. -/
  raw : Text
  /-- The least number of characters, when it is given. -/
  width : Option Nat
  /-- The number after the point, when it is given. -/
  precision : Option Nat
  /-- Whether the specifier has an index. -/
  indexed : Bool
  deriving DecidableEq, Repr

/-- A specifier takes an argument unless it is a doubled percent sign. -/
def Specifier.takesArgument (s : Specifier) : Bool :=
  s.kind != .percent

/-- Whether a specifier takes the next argument in order of appearance. -/
def Word.isSequential (w : Word) : Bool :=
  w.kind != .percent && w.index.isNone

/-- The number of the argument that a word takes, when `next` arguments have been counted up to it.
The index of a doubled percent sign is not read. -/
def Word.position (w : Word) (next : Nat) : Except Text.DigitFault Nat :=
  if w.kind = .percent then .ok 0
  else
    match w.index with
    | some digits => Text.number digits
    | none => .ok next

/-- The least number of characters that a word asks for, if it does. -/
def Word.leastWidth (w : Word) : Except Text.DigitFault (Option Nat) :=
  if w.width.isEmpty then .ok none else some <$> Text.number w.width

/-- A word as a specifier, when `next` arguments have been counted up to it. -/
def Word.specifier (w : Word) (next : Nat) : Except Text.DigitFault Specifier := do
  let position ← w.position next
  let width ← w.leastWidth
  let precision ← w.precision.mapM Text.number
  return ⟨position, w.kind, w.text, width, precision, w.index.isSome⟩

/-- Number the words from `next` on. -/
def number : Nat → List Word → Except Text.DigitFault (List Specifier)
  | _, [] => .ok []
  | next, w :: ws => do
    let specifier ← w.specifier next
    let specifiers ← number (if w.isSequential then next + 1 else next) ws
    return specifier :: specifiers

/-- The specifiers of a text with their arguments. -/
def specifiers (t : Text) : Except Text.DigitFault (List Specifier) :=
  number 1 (words t)

/-- The number of arguments that specifiers take. -/
def argumentCount (specifiers : List Specifier) : Nat :=
  specifiers.countP Specifier.takesArgument

end Phrasebook.Format
