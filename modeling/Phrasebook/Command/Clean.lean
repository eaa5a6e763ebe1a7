import Phrasebook.Command.Session

/-!
# Cleaning locale files

Orphans are removed from the files of all locales and of the machine translations. A key that the
file of a locale assigns more than once keeps its last value only.
-/

namespace Phrasebook.Clean

/-- Show how far a batch of saves is. -/
def showSave (p : SaveProgress) : Job Unit :=
  Job.print ("[".toList ++ Text.ofNat p.processed ++ '/' :: Text.ofNat p.total ++ "] ".toList ++
    p.code ++ ": ".toList ++ (p.error.filter (!·.isEmpty)).getD "saved".toList)

/-- The texts with which the file of a locale loses keys: a key without a text is dropped. -/
def withoutKeys (texts : KeyMap Text) (keys : List Text) : Dictionary Text :=
  (Locale.exactly texts).insertAll (keys.map (·, []))

/-- Take note that orphans were removed. -/
def recordRemoved (what place : Text) (orphans : List Text) : Job Unit := do
  unless orphans.isEmpty do
    Job.record .debug ("Removed ".toList ++ Text.ofNat orphans.length ++ " orphaned ".toList ++
      what ++ " from ".toList ++ place)

/-- Remove the orphans of locales. For each locale with orphans, the texts to save are noted. -/
def removeOrphans (valid : KeySet) :
    DataSet → Dictionary (Dictionary Text) → List Text →
      Job (DataSet × Dictionary (Dictionary Text))
  | d, saves, [] => return (d, saves)
  | d, saves, code :: codes => do
    match d.orphans code valid with
    | [] => removeOrphans valid d saves codes
    | orphans =>
      recordRemoved "keys".toList code orphans
      let d := d.removeOrphans code valid
      let texts := withoutKeys ((d.texts.get? code).getD ∅) orphans
      removeOrphans valid d (saves.insert code texts) codes

/-- Remove the orphans among the machine translations of base locales, and write the files that had
some. -/
def removeMachineOrphans (s : Session) (valid : KeySet) (backup : Bool) :
    DataSet → List Text → Job Unit
  | _, [] => return ()
  | d, base :: bases => do
    match d.machineOrphans base valid with
    | [] => removeMachineOrphans s valid backup d bases
    | orphans =>
      recordRemoved "GT keys".toList base orphans
      let d := d.removeMachineOrphans base valid
      discard <| Save.machine s.style s.directory base
        (Locale.exactly ((d.machine.get? base).getD ∅)) backup
      removeMachineOrphans s valid backup d bases

/-- Remove all orphans from the files of an addon. -/
def orphans (s : Session) (backup : Bool) : Job Unit := do
  let valid := (← s.scan).keys
  let d ← s.load
  let byFile := (d.orphansByFile valid).entries
  if byFile.isEmpty then
    Job.print "No orphaned keys found".toList
  else
    byFile.forM fun entry =>
      Job.print (entry.1 ++ ": ".toList ++ Text.ofNat entry.2.length ++ " orphaned".toList)
    let (d, saves) ← removeOrphans valid d.copy ∅ d.copy.codes
    unless saves.isEmpty do
      discard <| Save.batch s.style s.directory saves backup showSave
    removeMachineOrphans s valid backup d d.bases

/-- Leave one assignment of each key in the files of an addon. -/
def duplicates (s : Session) (backup : Bool) : Job Unit := do
  let d ← s.load
  match d.codes.filter d.hasDuplicates with
  | [] => Job.print "No duplicate entries found".toList
  | codes =>
    codes.forM fun code =>
      Job.print (code ++ ": ".toList ++ Text.ofNat (d.duplicatesOf code).length ++
        " duplicated keys".toList)
    let saves := codes.map fun code =>
      (code, Locale.exactly ((d.texts.get? code).getD ∅))
    discard <| Save.batch s.style s.directory (.ofList saves) backup showSave

end Phrasebook.Clean
