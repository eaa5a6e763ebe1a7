import Phrasebook.Key.Operation
import Phrasebook.Locale.Catalog
import Phrasebook.Locale.Entries
import Phrasebook.Number.Share

/-!
# Data sets

The texts of all loaded locales, the machine translations of each base locale beside them, and the
keys that locale files assign more than once. A data set also knows every key that it has seen in a
locale; coverage is measured against these.
-/

namespace Phrasebook

/-- The texts of a localization directory. -/
structure DataSet where
  /-- The texts of each locale. -/
  texts : KeyMap (KeyMap Text)
  /-- The machine translations of each base locale. -/
  machine : KeyMap (KeyMap Text)
  /-- The keys that the file of a locale assigns more than once. -/
  duplicates : KeyMap (KeyMap Locale.Duplicate)
  /-- Every key that some locale has had. -/
  known : KeySet

namespace DataSet

/-- The data set without locales. -/
def empty : DataSet :=
  ⟨∅, ∅, ∅, ∅⟩

instance : Inhabited DataSet :=
  ⟨empty⟩

/-- The data set with the texts of a locale, in place of those that it had. -/
def addLocale (d : DataSet) (code : Text) (texts : KeyMap Text)
    (duplicates : KeyMap Locale.Duplicate) : DataSet where
  texts := d.texts.insert code texts
  machine := d.machine
  duplicates := d.duplicates.insert code duplicates
  known := d.known.insertAll texts.keys

/-- The data set with the machine translations of a base locale, in place of those that it had. -/
def addMachine (d : DataSet) (base : Text) (texts : KeyMap Text) : DataSet :=
  { d with machine := d.machine.insert base texts }

/-- A table of maps, all of them made anew. -/
def copyTable {V : Type} (table : KeyMap (KeyMap V)) : KeyMap (KeyMap V) :=
  .ofList (table.items.map fun entry => (entry.1, entry.2.copy))

/-- The data set with all its maps made anew. -/
def copy (d : DataSet) : DataSet where
  texts := copyTable d.texts
  machine := copyTable d.machine
  duplicates := copyTable d.duplicates
  known := .ofList d.known.keys

/-- The codes of the loaded locales. -/
def codes (d : DataSet) : List Text :=
  d.texts.keys

/-- The base locales with machine translations. -/
def bases (d : DataSet) : List Text :=
  d.machine.keys

/-- The text of a key in a locale. -/
def text? (d : DataSet) (key code : Text) : Option Text :=
  (d.texts.get? code).bind (·.get? key)

/-- The machine translation of a key in a base locale. -/
def machineText? (d : DataSet) (key base : Text) : Option Text :=
  (d.machine.get? base).bind (·.get? key)

/-- Whether a base locale has a machine translation of a key. -/
def hasMachineText (d : DataSet) (key base : Text) : Bool :=
  (d.machine.get? base).any (·.contains key)

/-- The number of texts of a locale. -/
def count (d : DataSet) (code : Text) : Nat :=
  ((d.texts.get? code).map (·.size)).getD 0

/-- The number of machine translations of a base locale. -/
def machineCount (d : DataSet) (base : Text) : Nat :=
  ((d.machine.get? base).map (·.size)).getD 0

/-- The number of texts of a locale that are not blank. -/
def translatedCount (d : DataSet) (code : Text) : Nat :=
  ((d.texts.get? code).map fun texts =>
    texts.values.countP fun value => !Text.isBlankText value).getD 0

/-- The share of the known keys for which a locale has a text that is not blank. -/
def coverage (d : DataSet) (code : Text) : Share :=
  ⟨d.translatedCount code, d.known.size⟩

/-- The keys that the file of a locale assigns more than once. -/
def duplicatesOf (d : DataSet) (code : Text) : List Locale.Duplicate :=
  ((d.duplicates.get? code).map (·.values)).getD []

/-- Whether the file of a locale assigns some key more than once. -/
def hasDuplicates (d : DataSet) (code : Text) : Bool :=
  !(d.duplicatesOf code).isEmpty

/-- The locales whose files assign some key more than once, with those keys. -/
def allDuplicates (d : DataSet) : List (Text × List Locale.Duplicate) :=
  (d.duplicates.entries.filter fun entry => !entry.2.isEmpty).map fun entry =>
    (entry.1, entry.2.values)

/-- Whether the file of some locale assigns a key more than once. -/
def anyDuplicates (d : DataSet) : Bool :=
  !d.allDuplicates.isEmpty

/-- The number of keys assigned more than once in all files together. -/
def duplicateCount (d : DataSet) : Nat :=
  (d.duplicates.values.map (·.size)).foldl (· + ·) 0

end DataSet

end Phrasebook
