import Phrasebook.Source.Bracket
import Phrasebook.Text.Word

/-!
# References

A reference looks up a key of the localization table: the name of the table, an opening bracket and
a quoted literal whose raw text is the key, with blanks allowed between them. The name must not
continue a longer one. References of a line are found from left to right; the search goes on behind
the opening bracket of the last one.
-/

namespace Phrasebook.Glue

/-- What is looked for in source lines. -/
structure Patterns where
  /-- The name of the localization table. -/
  table : Text
  /-- The functions whose first argument is a format string. -/
  templates : List Text
  deriving DecidableEq, Repr

/-- The opening of a look-up at the front of a text. -/
structure Opening where
  /-- The number of characters before the opening bracket. -/
  bracket : Nat
  /-- The number of characters before the quote. -/
  quote : Nat
  /-- The text from the quote on. -/
  rest : Text
  deriving DecidableEq, Repr

/-- The table name, an opening bracket and a quote at the front of a text, blanks between them. -/
def opening? (table : Text) (t : Text) : Option Opening :=
  match Text.after? table t with
  | none => none
  | some afterName =>
    match Text.trimLeft afterName with
    | '[' :: afterBracket =>
      let bracket := table.length + (Text.indent afterName).length
      let rest := Text.trimLeft afterBracket
      if rest.head?.any Source.isQuote then
        some ⟨bracket, bracket + 1 + (Text.indent afterBracket).length, rest⟩
      else none
    | _ => none

/-- What is left of a text without some of the blanks at its front: all ways, the longest first. -/
def blankTails : Text → List Text
  | [] => [[]]
  | c :: t => (c :: t) :: if Text.isBlank c then blankTails t else []

/-- Whether a text, read backwards, ends with a function name that continues no longer one. -/
def endsWithName (name reversed : Text) : Bool :=
  match Text.after? name.reverse reversed with
  | none => false
  | some rest => !rest.head?.any fun c => Text.isWordChar c || c == '.'

/-- Whether a text ends with a template function, an opening parenthesis and blanks, so that what
follows is the first argument of the call. -/
def opensTemplateCall (templates : List Text) (t : Text) : Bool :=
  match t.reverse.dropWhile Text.isBlank with
  | '(' :: rest => (blankTails rest).any fun tail => templates.any fun name => endsWithName name tail
  | _ => false

/-- A look-up of a key found in a line. -/
structure Reference where
  /-- The key, as the raw text of its literal. -/
  key : Text
  /-- Whether the key expression joins strings. -/
  isJoined : Bool
  /-- Whether the reference is the first argument of a template function. -/
  isTemplate : Bool
  /-- The position of the table name. -/
  start : Nat
  /-- The position of the opening bracket. -/
  bracket : Nat
  deriving DecidableEq, Repr

/-- The reference of an opening found at `start`, if its literal closes and is not empty. -/
def Opening.reference? (opening : Opening) (patterns : Patterns) (line : Text) (start : Nat) :
    Option Reference :=
  match Source.takeLiteral opening.rest with
  | some (c :: key, _) =>
    some {
      key := c :: key
      isJoined := Source.joinsInBrackets line (start + opening.bracket)
      isTemplate := opensTemplateCall patterns.templates (line.take start)
      start := start
      bracket := start + opening.bracket }
  | _ => none

/-- The openings of look-ups in what is left of a line, with their positions. `skip` characters
belong to the opening before, `previous` is the character on the left, and `index` the position. -/
def openingsFrom (table : Text) : Nat → Option Char → Nat → Text → List (Nat × Opening)
  | _, _, _, [] => []
  | skip + 1, _, index, c :: t => openingsFrom table skip (some c) (index + 1) t
  | 0, previous, index, c :: t =>
    if previous.any Text.isWordChar then openingsFrom table 0 (some c) (index + 1) t
    else
      match opening? table (c :: t) with
      | some opening =>
        (index, opening) :: openingsFrom table (opening.quote - 1) (some c) (index + 1) t
      | none => openingsFrom table 0 (some c) (index + 1) t

/-- The references of a line from left to right. -/
def references (patterns : Patterns) (line : Text) : List Reference :=
  (openingsFrom patterns.table 0 none 0 line).filterMap fun (start, opening) =>
    opening.reference? patterns line start

end Phrasebook.Glue
