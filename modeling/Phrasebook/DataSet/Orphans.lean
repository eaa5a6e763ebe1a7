import Phrasebook.DataSet.Basic

/-!
# Orphans

A stored key that no scanned source uses is an orphan. Orphans are listed for each file and removed
only on request.
-/

namespace Phrasebook.DataSet

/-- The keys of a map that are not valid, in key order. -/
def orphanKeys (texts : Option (KeyMap Text)) (valid : KeySet) : List Text :=
  match texts with
  | none => []
  | some texts => sortKeys (texts.keys.filter fun key => !valid.contains key)

/-- A map without the keys that are not valid. -/
def withoutOrphans (texts : KeyMap Text) (valid : KeySet) : KeyMap Text :=
  (orphanKeys (some texts) valid).foldl Lexicon.erase texts

/-- The orphans of a locale. -/
def orphans (d : DataSet) (code : Text) (valid : KeySet) : List Text :=
  orphanKeys (d.texts.get? code) valid

/-- The orphans among the machine translations of a base locale. -/
def machineOrphans (d : DataSet) (base : Text) (valid : KeySet) : List Text :=
  orphanKeys (d.machine.get? base) valid

/-- The files that hold orphans, with their orphans. -/
def orphansByFile (d : DataSet) (valid : KeySet) : Dictionary (List Text) :=
  .ofList (((d.codes.map fun code => (Locale.file code, d.orphans code valid)) ++
    d.bases.map fun base => (Locale.machineFile base, d.machineOrphans base valid)).filter
      fun entry => !entry.2.isEmpty)

/-- The data set without the orphans of a locale. -/
def removeOrphans (d : DataSet) (code : Text) (valid : KeySet) : DataSet :=
  { d with texts := d.texts.modify code fun texts => withoutOrphans texts valid }

/-- The data set without the orphans among the machine translations of a base locale. -/
def removeMachineOrphans (d : DataSet) (base : Text) (valid : KeySet) : DataSet :=
  { d with machine := d.machine.modify base fun texts => withoutOrphans texts valid }

end Phrasebook.DataSet
