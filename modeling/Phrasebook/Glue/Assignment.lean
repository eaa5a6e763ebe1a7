import Phrasebook.Glue.Reference
import Phrasebook.Source.Comment
import Phrasebook.Source.Escape

/-!
# Assignments

A line assigns a key when it starts with a look-up of that key, followed by a closing bracket and
an equals sign. The assignment is literal when its value is a single quoted literal, with a
semicolon and a comment allowed behind it; every other value is computed.
-/

namespace Phrasebook.Glue

/-- What follows a closing bracket and an equals sign at the front of a text. Two equals signs in a
row compare and assign nothing. -/
def afterAssignmentSign? (t : Text) : Option Text :=
  match Text.trimLeft t with
  | ']' :: t =>
    match Text.trimLeft t with
    | '=' :: t => if t.head? = some '=' then none else some t
    | _ => none
  | _ => none

/-- The front of an assignment. -/
structure Target where
  /-- The key that is assigned, as the raw text of its literal. -/
  key : Text
  /-- The text behind the equals sign. -/
  value : Text
  deriving DecidableEq, Repr

/-- The front of the assignment that a line consists of. -/
def target? (table : Text) (line : Text) : Option Target :=
  match (blankTails line).findSome? (opening? table) with
  | none => none
  | some opening =>
    match Source.takeLiteral opening.rest with
    | some (c :: key, rest) => (afterAssignmentSign? rest).map fun value => ⟨c :: key, value⟩
    | _ => none

/-- The key that a line assigns, whatever the value is. -/
def assignedKey? (table : Text) (line : Text) : Option Text :=
  (target? table line).map (·.key)

/-- The position behind the equals sign of an assignment. -/
def valueStart? (table : Text) (line : Text) : Option Nat :=
  (target? table line).map fun target => line.length - target.value.length

/-- The references in the value of an assignment; a line that assigns nothing has none. -/
def valueReferences (patterns : Patterns) (line : Text) : List Reference :=
  match valueStart? patterns.table line with
  | none => []
  | some start => (references patterns line).filter fun reference => start ≤ reference.start

/-- An assignment of a single literal. -/
structure Assignment where
  /-- The key, as the raw text of its literal. -/
  key : Text
  /-- The text that is assigned, with its escapes replaced. -/
  value : Text
  /-- The blanks at the start of the line. -/
  indent : Text
  deriving DecidableEq, Repr

/-- Whether a text has nothing but blanks, with at most one semicolon among them. -/
def endsStatement (t : Text) : Bool :=
  match Text.trimLeft t with
  | [] => true
  | c :: rest => c == ';' && Text.isBlankText rest

/-- The literal that is assigned by the text behind an equals sign: its raw text. -/
def assignedLiteral? (value : Text) : Option Text :=
  match Source.takeLiteral (Text.trimLeft (Source.stripComment value)) with
  | none => none
  | some (raw, rest) => if endsStatement rest then some raw else none

/-- The literal assignment that a line consists of. -/
def assignment? (table : Text) (line : Text) : Option Assignment :=
  match target? table line with
  | none => none
  | some target =>
    (assignedLiteral? target.value).map fun raw =>
      ⟨target.key, Source.unescape raw, Text.indent line⟩

/-- The line that assigns a text to a key. -/
def Assignment.line (a : Assignment) (table : Text) : Text :=
  a.indent ++ table ++ "[\"".toList ++ a.key ++ "\"] = \"".toList ++ Source.escape a.value ++ ['"']

end Phrasebook.Glue
