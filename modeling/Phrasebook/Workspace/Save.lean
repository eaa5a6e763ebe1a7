import Phrasebook.Locale.Merge
import Phrasebook.Workspace.Backup

/-!
# Saving locale files

A locale file is merged with its new texts and keeps the ends of its lines; a file of machine
translations is written anew. Several locales are saved one after another: after a save that fails
the others are skipped, and the batch fails as a whole.
-/

namespace Phrasebook.Save

/-- The catalog's spelling of a code, which has to be known. -/
def requireLocale (code : Text) : Job Text :=
  match Locale.canonical? code with
  | some canonical => return canonical
  | none => Job.fail (.invalidLocale code none)

/-- The path of the file of a locale. -/
def localePath (directory code : Text) : Text :=
  Files.inDirectory directory (Locale.file code)

/-- The lines of the file of a locale, if it exists, and how they end. The file is backed up first
when that is asked for. -/
def existingLines (path : Text) (backup : Bool) : Job (Option (List Text) × Text.Newline) := do
  if ← Files.isFile path then
    let content ← Files.readText path
    if backup then
      discard <| Backup.write path content
    return (some (Text.lines content), Text.newlineOf content)
  else return (none, .lf)

/-- Save the texts of a locale. -/
def locale (style : Locale.Style) (directory code : Text) (texts : Dictionary Text)
    (backup : Bool) : Job Text := do
  Backup.requireDirectory directory
  let code ← requireLocale code
  let path := localePath directory code
  let (existing, newline) ← existingLines path backup
  let lines := Locale.fileLines style code texts existing
  Job.recordAll (Locale.fileRecords style texts existing)
  Files.writeLines path lines newline.text
  Job.record .info ("Saved ".toList ++ path ++ " (".toList ++ Text.ofNat lines.length ++
    " lines)".toList)
  return path

/-- The texts of several locales under the catalog's spelling of their codes. Each locale may be
named once. -/
def canonicalTexts : Dictionary (Dictionary Text) → List (Text × Dictionary Text) →
    Job (Dictionary (Dictionary Text))
  | known, [] => return known
  | known, (code, texts) :: rest => do
    let canonical ← requireLocale code
    if known.contains canonical then
      Job.fail (.invalidLocale code
        (some ("Locale ".toList ++ canonical ++ " is listed more than once".toList)))
    else canonicalTexts (known.insert canonical texts) rest

/-- What has become of the locales of a batch so far. -/
structure Batch where
  /-- The locales that are saved. -/
  completed : List Text
  /-- The locales that could not be saved, and why. -/
  failures : List (Text × Text)
  /-- The locales that were not tried after a failure. -/
  skipped : List Text
  deriving DecidableEq, Repr

/-- The report about a locale of a batch. -/
def Batch.report (b : Batch) (total : Nat) (code : Text) (error : Option Text) : SaveProgress :=
  ⟨code, b.completed.length, total, error.isNone && b.completed.length == total, error⟩

/-- What a skipped locale is reported with. -/
def skippedText : Text :=
  "Skipped after an earlier save failed".toList

/-- Save one locale of a batch. -/
def batchStep (style : Locale.Style) (directory : Text) (backup : Bool) (total : Nat)
    (report : SaveProgress → Job Unit) (b : Batch) (entry : Text × Dictionary Text) :
    Job Batch := do
  let code := entry.1
  if !b.failures.isEmpty then
    let b := { b with skipped := b.skipped ++ [code] }
    report (b.report total code (some skippedText))
    return b
  match ← Job.attempt (locale style directory code entry.2 backup) with
  | .ok _ =>
    let b := { b with completed := b.completed ++ [code] }
    report (b.report total code none)
    return b
  | .error fault =>
    let b := { b with failures := b.failures ++ [(code, fault.message)] }
    Job.record .error ("Failed to save ".toList ++ code ++ ": ".toList ++ fault.message)
    report (b.report total code (some fault.message))
    return b

/-- Save the texts of several locales. -/
def batch (style : Locale.Style) (directory : Text) (texts : Dictionary (Dictionary Text))
    (backup : Bool) (report : SaveProgress → Job Unit) : Job (List Text) := do
  Backup.requireDirectory directory
  let canonical ← canonicalTexts ∅ texts.entries
  let b ← canonical.entries.foldlM
    (batchStep style directory backup canonical.size report) ⟨[], [], []⟩
  if b.failures.isEmpty then return b.completed
  else Job.fail (.batchSave b.failures b.completed b.skipped)

/-- Write the machine translations of a base locale. -/
def machine (style : Locale.Style) (directory base : Text) (texts : Dictionary Text)
    (backup : Bool) : Job Text := do
  Backup.requireDirectory directory
  let codes := (Locale.codesOf base).filter fun code => !Locale.isEnglish code
  if codes.isEmpty then Job.fail (.invalidLocale base none)
  let path := Files.inDirectory directory (Locale.machineFile base)
  if backup then
    if ← Files.isFile path then
      discard <| Backup.create path
  Files.writeLines path (Locale.newFile style codes texts []) Text.Newline.lf.text
  Job.record .info ("Wrote GT file ".toList ++ path)
  return path

end Phrasebook.Save
