import Phrasebook.DataSet.Edits
import Phrasebook.DataSet.Orphans
import Phrasebook.Translation.Service

/-!
# Updating machine translations

The machine translations of a base locale are brought up to date: entries whose keys no source uses
are dropped, and the texts of the source locale that have no entry are translated. Entries that are
there already stay as they are.
-/

namespace Phrasebook.Translation

/-- The result of an update. -/
structure Update where
  /-- The data set with the new machine translations. -/
  dataSet : DataSet
  /-- The keys that got a translation, in key order. -/
  added : List Text
  /-- The keys that were dropped, in key order. -/
  removed : List Text

/-- Whether an update changed anything. -/
def Update.changed (u : Update) : Bool :=
  !u.added.isEmpty || !u.removed.isEmpty

/-- Whether a key takes part in an update: all do, unless valid keys are given. -/
def isWanted (valid : Option KeySet) (key : Text) : Bool :=
  valid.all (·.contains key)

/-- The texts of the source locale that a base locale has no machine translation of. -/
def missingTexts (d : DataSet) (base : Text) (valid : Option KeySet) (source : Text) :
    List (Text × Text) :=
  (((d.texts.get? source).map (·.entries)).getD []).filter fun entry =>
    !Text.isBlankText entry.2 && !d.hasMachineText entry.1 base && isWanted valid entry.1

/-- The keys of the machine translations of a base locale that an update drops. -/
def droppedKeys (d : DataSet) (base : Text) (valid : Option KeySet) : List Text :=
  match valid with
  | none => []
  | some valid => d.machineOrphans base valid

/-- The data set without the machine translations that an update drops. -/
def dropKeys (d : DataSet) (base : Text) (valid : Option KeySet) : DataSet :=
  match valid with
  | none => d
  | some valid => d.removeMachineOrphans base valid

/-- The edits that add the translations of missing texts, in key order. -/
def additions (base : Text) (missing : List (Text × Text)) (translations : Dictionary Text) :
    List TextEdit :=
  (missing.mergeSort fun a b => keyLe a.1 b.1).filterMap fun entry =>
    (translations.get? entry.2).map fun translation => ⟨entry.1, base, translation, true⟩

/-- Take note that orphans were removed from the machine translations of a base locale. -/
def recordRemoved (base : Text) (removed : List Text) : Job Unit := do
  unless removed.isEmpty do
    Job.record .debug ("Removed ".toList ++ Text.ofNat removed.length ++
      " orphaned GT keys from ".toList ++ base)

/-- Bring the machine translations of a base locale up to date. `translate` translates texts into
a language. -/
def update (translate : List Text → Text → Job (Dictionary Text)) (d : DataSet) (base : Text)
    (valid : Option KeySet) (source : Text) : Job Update := do
  match Locale.language? base with
  | none => Job.fail (.invalidLocale base none)
  | some language =>
    let removed := droppedKeys d.copy base valid
    let kept := dropKeys d.copy base valid
    recordRemoved base removed
    let missing := missingTexts kept base valid source
    if missing.isEmpty then
      Job.record .info ("No missing GT translations for ".toList ++ base)
      return ⟨kept, [], removed⟩
    let translations ← translate (missing.map (·.2)) language
    let edits := additions base missing translations
    Job.record .info ("Added ".toList ++ Text.ofNat edits.length ++
      " GT translations for ".toList ++ base ++ ", removed ".toList ++
      Text.ofNat removed.length)
    match kept.applyEdits edits with
    | .ok updated => return ⟨updated, edits.map (·.key), removed⟩
    | .error f => Job.fail f

end Phrasebook.Translation
