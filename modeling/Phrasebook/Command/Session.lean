import Phrasebook.Settings.Basic
import Phrasebook.Translation.Update
import Phrasebook.Workspace.Load
import Phrasebook.Workspace.Save

/-!
# Sessions

A session works on one addon with the settings that were chosen for it. It scans the sources, reads
what the locale files use and assign, and loads the texts of all locales.
-/

namespace Phrasebook

/-- An addon with the settings for it. -/
structure Session where
  /-- The directory of the addon. -/
  addon : Path
  /-- The settings. -/
  settings : Settings

namespace Session

/-- The directory of the addon's locale files. -/
def directory (s : Session) : Text :=
  (s.addon.append (.ofText s.settings.files.directory)).text

/-- How the addon's sources are scanned. -/
def scanner (s : Session) : Scanner :=
  ⟨⟨s.settings.scan.table, s.settings.scan.templateFunctions⟩, s.settings.scan.cap⟩

/-- How the addon's locale files are written. -/
def style (s : Session) : Locale.Style :=
  ⟨s.settings.scan.table, s.settings.files.addon, s.settings.files.expression⟩

/-- The summary with what the values of locale files look up. -/
def addUsages (s : Session) : Glue.Summary → List Text → Job Glue.Summary
  | known, [] => return known
  | known, path :: paths => do
    let used ← s.scanner.usages path
    s.addUsages (known.addReferenced used.keys) paths

/-- The summary of the addon's sources together with the keys that its locale files look up. The
specifiers of the source locale's texts are attached. -/
def scan (s : Session) : Job Glue.Summary := do
  let chosen := s.settings.scan
  let summary ← s.scanner.scanDirectory s.addon.text chosen.excluded chosen.pattern
  let paths ←
    if ← Files.isDirectory s.directory then Files.find s.directory sourcePattern false else pure []
  let summary ← s.addUsages summary paths
  let source := Files.inDirectory s.directory (Locale.file Locale.source)
  if ← Files.isFile source then
    let specifiers ← s.scanner.specifiers source
    Job.record .debug ("Attached format parameters to ".toList ++
      Text.ofNat (summary.attachable specifiers) ++ " keys".toList)
    return summary.attach specifiers
  else return summary

/-- The texts of all locales and the machine translations of all base locales. -/
def load (s : Session) : Job DataSet := do
  let d ← s.scanner.loadDirectory s.directory s.settings.files.otherEndings
  let (d, loaded) ← s.scanner.loadMachineFiles s.directory d
  Job.record .debug ("Loaded ".toList ++ Text.ofNat loaded ++ " GT files".toList)
  return d

/-- The translation service that the settings choose, with the key of the environment where they
have none. -/
def service (s : Session) (environmentKey : Option Text) : Translation.Service :=
  let chosen := s.settings.translation
  { key := Translation.Service.chooseKey chosen.key environmentKey
    endpoint := chosen.endpoint
    batchSize := chosen.batchSize
    pause := chosen.pause
    retries := 3
    source := "en".toList }

end Session

end Phrasebook
