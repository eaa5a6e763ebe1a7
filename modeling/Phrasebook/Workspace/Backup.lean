import Phrasebook.Locale.Catalog
import Phrasebook.Workspace.Files

/-!
# Backups

A backup of a file stands beside it under the same name with the time and `.backup` behind it, so
the names of the backups of a file are ordered by time. The last one can be restored.
-/

namespace Phrasebook.Backup

/-- The end of the names of backups. -/
def ending : Text :=
  ".backup".toList

/-- The path of the backup of a file at a time. -/
def path (file time : Text) : Text :=
  file ++ '.' :: time ++ ending

/-- Write a text to the backup of a file. -/
def write (file content : Text) : Job Text := do
  let backup := path file (← Job.time)
  Files.writeText backup content
  Job.record .info ("Created backup ".toList ++ backup)
  return backup

/-- Back up a file. -/
def create (file : Text) : Job Text := do
  Files.requireFile file
  write file (← Files.readText file)

/-- Refuse a localization directory that does not exist. -/
def requireDirectory (directory : Text) : Job Unit :=
  Files.requireDirectory "Localization directory not found: ".toList directory

/-- The catalog's spelling of a code; the code itself when it is unknown. -/
def spelling (code : Text) : Text :=
  (Locale.canonical? code).getD code

/-- The pattern of the names of the backups of a locale file. -/
def pattern (code : Text) : Text :=
  Locale.file (spelling code) ++ ".*".toList ++ ending

/-- The backups of a locale file, the oldest one first. -/
def all (directory code : Text) : Job (List Text) := do
  requireDirectory directory
  let paths ← Files.find directory (pattern code) false
  return Text.sort (paths.filter fun path =>
    Path.nameMatches (pattern code) (Path.ofText path).name)

/-- Delete all backups of a locale file. -/
def deleteAll (directory code : Text) : Job Nat := do
  if ← Files.isDirectory directory then
    let backups ← all directory code
    backups.forM Files.delete
    unless backups.isEmpty do
      Job.record .info ("Deleted ".toList ++ Text.ofNat backups.length ++ " backups of ".toList ++
        code)
    return backups.length
  else return 0

/-- Restore a locale file from its last backup. -/
def restore (directory code : Text) : Job Text := do
  let file := Locale.file (spelling code)
  let target := Files.inDirectory directory file
  match (← all directory (spelling code)).getLast? with
  | none => Job.fail (.notFound ("No backup found for ".toList ++ file) (some target) none)
  | some latest =>
    Files.writeText target (← Files.readText latest)
    Job.record .info ("Restored ".toList ++ target ++ " from ".toList ++ latest)
    return latest

end Phrasebook.Backup
