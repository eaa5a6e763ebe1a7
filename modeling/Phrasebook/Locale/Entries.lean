import Phrasebook.Glue.Assignment
import Phrasebook.Key.Set
import Phrasebook.Format.Specifier

/-!
# Reading a locale file

The entries of a locale file are its literal assignments. Running the file leaves each key with the
value of its last assignment; keys that are assigned more than once are recorded with all their
values. The keys that a file defines and uses, and the specifiers of its texts, are read off the
same lines.
-/

namespace Phrasebook.Locale

/-- A key that a locale file assigns more than once. -/
structure Duplicate where
  /-- The key in the spelling of its first assignment. -/
  key : Text
  /-- The values in the order of the file. -/
  values : List Text
  deriving DecidableEq, Repr

/-- The value that the key ends up with. -/
def Duplicate.final? (d : Duplicate) : Option Text :=
  d.values.getLast?

/-- The texts of a locale file. -/
structure Entries where
  /-- The value of each key after the last assignment. -/
  texts : KeyMap Text
  /-- The keys that are assigned more than once. -/
  duplicates : KeyMap Duplicate

/-- The literal assignments of the lines of a file, in order. -/
def assignments (table : Text) (lines : List Text) : List Glue.Assignment :=
  lines.filterMap (Glue.assignment? table)

/-- The values of each key in the order of their assignments. -/
def valuesByKey (assignments : List Glue.Assignment) : KeyMap (List Text) :=
  assignments.foldl
    (fun values a => values.insert a.key ((values.get? a.key).getD [] ++ [a.value])) ∅

/-- The entries that literal assignments leave behind. -/
def Entries.ofAssignments (assignments : List Glue.Assignment) : Entries :=
  let values := (valuesByKey assignments).entries
  { texts := .ofList (values.map fun entry => (entry.1, entry.2.getLastD []))
    duplicates := .ofList ((values.filter fun entry => entry.2.length > 1).map fun entry =>
      (entry.1, ⟨entry.1, entry.2⟩)) }

/-- The entries of the lines of a locale file. -/
def Entries.ofLines (table : Text) (lines : List Text) : Entries :=
  .ofAssignments (assignments table lines)

/-- The keys that the lines of a file assign, with literal or computed values. -/
def definedKeys (table : Text) (lines : List Text) : KeySet :=
  .ofList (lines.filterMap (Glue.assignedKey? table))

/-- The keys that the lines of a file look up in the values of assignments. -/
def usedKeys (patterns : Glue.Patterns) (lines : List Text) : KeySet :=
  .ofList (lines.flatMap fun line => (Glue.valueReferences patterns line).map (·.key))

/-- The specifiers of the texts that lines assign; keys whose text has none are left out. -/
def specifiersByKey (table : Text) (lines : List Text) :
    Except Text.DigitFault (KeyMap (List Format.Specifier)) := do
  let found ← (assignments table lines).mapM fun a => do
    let specifiers ← Format.specifiers a.value
    return (a.key, specifiers)
  return .ofList (found.filter fun entry => !entry.2.isEmpty)

end Phrasebook.Locale
