import Phrasebook.Text.Blank
import Phrasebook.Text.Word

/-!
# Guards

A guard is a line that compares the locale of the client. The guarded block runs from there to the
first line that starts with `end`. Only the first guard of a file counts.
-/

namespace Phrasebook.Locale

/-- Whether a line starts with `if locale ==`. -/
def isGuard (line : Text) : Bool :=
  match Text.after? "if".toList (Text.trimLeft line) with
  | none => false
  | some rest =>
    rest.head?.any Text.isBlank &&
      match Text.after? "locale".toList (Text.trimLeft rest) with
      | none => false
      | some rest => Text.startsWith (Text.trimLeft rest) "==".toList

/-- Whether a line starts with the word `end`. -/
def isBlockEnd (line : Text) : Bool :=
  match Text.after? "end".toList (Text.trimLeft line) with
  | none => false
  | some rest => !rest.head?.any Text.isWordChar

/-- The positions of the guard and of the line that ends its block. -/
def guardedBlock? (lines : List Text) : Option (Nat × Nat) :=
  match lines.findIdx? isGuard with
  | none => none
  | some start =>
    ((lines.drop (start + 1)).findIdx? isBlockEnd).map fun length => (start, start + 1 + length)

end Phrasebook.Locale
