import Phrasebook.Command.Session

/-!
# Renewing machine translations

The machine translations of one base locale, or of all, are brought up to date with the sources and
the source locale, and the files of those that changed are written.
-/

namespace Phrasebook.Renew

/-- Show how far a batch translation is. -/
def showTranslation (p : TranslationProgress) : Job Unit :=
  match p.error with
  | some (c :: t) => Job.print ("Batch failed: ".toList ++ c :: t)
  | _ =>
    Job.print ("Translated ".toList ++ Text.ofNat p.processed ++ '/' :: Text.ofNat p.total)

/-- Bring the machine translations of a base locale up to date. -/
def base (s : Session) (service : Translation.Service) (valid : KeySet) (d : DataSet)
    (base : Text) : Job DataSet := do
  let translate (texts : List Text) (language : Text) : Job (Dictionary Text) :=
    service.translateAll texts language showTranslation
  let u ← Translation.update translate d base (some valid) Locale.source
  if u.changed then
    let path ← Save.machine s.style s.directory base
      (Locale.exactly ((u.dataSet.machine.get? base).getD ∅)) s.settings.files.keepsBackups
    Job.print (base ++ ": ".toList ++ Text.ofNat u.added.length ++ " added, ".toList ++
      Text.ofNat u.removed.length ++ " removed -> ".toList ++ path)
  else
    Job.print (base ++ ": up to date".toList)
  return u.dataSet

/-- Bring machine translations up to date. Without a source locale nothing can be translated. -/
def run (s : Session) (environmentKey chosen : Option Text) : Job Bool := do
  let valid := (← s.scan).keys
  let d ← s.load
  if d.texts.contains Locale.source then
    let bases := (chosen.map ([·])).getD Locale.machineBases
    discard <| bases.foldlM (base s (s.service environmentKey) valid) d
    return true
  else
    Job.record .error ("No ".toList ++ Locale.source ++ " locale file in ".toList ++ s.directory)
    return false

end Phrasebook.Renew
